import Xv6Mount.Infra.Ring

/-!
# console の入力（`console.c` の `consoleintr`・`consoleread`）

`input.buf` は容量 `INPUT_BUF` の ring buffer で、`uint` の位置が三つある。`r` から `w` までは
読める行（`consoleintr` が commit した文字）、`w` から `e` までは編集中の行である。
`consoleintr` は `cons.lock` を握ったまま文字の列を処理し、`consoleread` は `sleep` の間だけ
lock を手放す。pipe と同じく、一回の `consoleread` を lock を握って進む段に分ける。

* `Input.Holds inp ready edit` — `r` から `w` までが `ready`、`w` から `e` までが `edit`
* `consoleintrChar_holds` — 一文字で `ready` は後ろに伸びるだけで、`edit` は書き換わる
* `consolereadLoop_holds` — 読む段は `ready` の先頭を取り、写すのはそのうち ^D 以外である
* `consolereadLoop_newline` / `consolereadLoop_eof` — 改行の後で止まり、^D は写さずに止まって、
  すでに写した byte があれば次の read に残る
* `console_line_discipline` — どの段の列の後でも `r ≤ w ≤ e ≤ r + INPUT_BUF` で、写した byte は
  commit された文字から ^D を除いたものの先頭部分である
-/

namespace Xv6

open Infra

/-- console の入力 buffer の容量。 -/
def INPUT_BUF : Nat := 128

theorem INPUT_BUF_dvd : INPUT_BUF ∣ 2 ^ 32 := ⟨2 ^ 25, rfl⟩

theorem INPUT_BUF_lt : INPUT_BUF < 2 ^ 32 := by
  decide

/-- `C(x)`：Control-x。 -/
def C (x : Char) : UInt8 := x.toUInt8 - '@'.toUInt8

/-- `input`。`buf[INPUT_BUF]` は添字から文字への関数とする。 -/
structure Input where
  buf : Nat → UInt8
  r : UInt32
  w : UInt32
  e : UInt32

/-! ## `consoleintr` -/

/-- `e - w` が減ることを `killLine` の停止に使う。 -/
theorem dist_pred_lt {e w : UInt32} (h : e ≠ w) : (e - 1 - w).toNat < (e - w).toNat := by
  have hpos : (e - w).toNat ≠ 0 := fun h0 => h (Ring.dist_eq_zero_iff.mp h0)
  obtain ⟨k, hk⟩ := Nat.exists_eq_succ_of_ne_zero hpos
  rw [Ring.dist_pred_right hk, hk]
  exact Nat.lt_succ_self k

/-- `^U` の loop。`w` か直前の改行まで `e` を戻す。 -/
def killLine (inp : Input) : Input :=
  if inp.e ≠ inp.w ∧ inp.buf ((inp.e - 1).toNat % INPUT_BUF) ≠ '\n'.toUInt8 then
    killLine { inp with e := inp.e - 1 }
  else inp
termination_by (inp.e - inp.w).toNat
decreasing_by
  rename_i h
  exact dist_pred_lt h.1

/-- `consoleintr` の `switch` が一文字を処理する。`consputc` の表示と `procdump` は入力に触れない。 -/
def consoleintrChar (inp : Input) (c : UInt8) : Input :=
  if c = C 'P' then inp
  else if c = C 'U' then killLine inp
  else if c = C 'H' ∨ c = 0x7f then
    -- backspace
    if inp.e ≠ inp.w then { inp with e := inp.e - 1 } else inp
  else if c ≠ 0 ∧ inp.e - inp.r < INPUT_BUF.toUInt32 then
    let c := if c = '\r'.toUInt8 then '\n'.toUInt8 else c
    let inp := { inp with buf := Ring.put INPUT_BUF inp.buf inp.e c, e := inp.e + 1 }
    -- 改行、^D、満杯で行を commit する
    if c = '\n'.toUInt8 ∨ c = C 'D' ∨ inp.e = inp.r + INPUT_BUF.toUInt32 then { inp with w := inp.e } else inp
  else inp

/-- `consoleintr`。`getc` が負を返すまでの文字を順に処理する。 -/
def consoleintr (inp : Input) (cs : List UInt8) : Input :=
  cs.foldl consoleintrChar inp

/-! ## `consoleread` -/

/-- `consoleread` の一段が終わる形。どれも、その段で `dst` に写した byte を持つ。 -/
inductive ConsoleRead
  /-- 読み終えて `target - n` を返す。 -/
  | done (bytes : List UInt8)
  /-- 空で kill されていて `-1` を返す。 -/
  | fail (bytes : List UInt8)
  /-- 空で `sleep` する。起きると残り `n` 個から続ける。 -/
  | sleep (n : Nat) (bytes : List UInt8)

/-- その段で写した byte。 -/
def ConsoleRead.bytes : ConsoleRead → List UInt8
  | .done bytes => bytes
  | .fail bytes => bytes
  | .sleep _ bytes => bytes

/-- 先に一文字写した段。 -/
def ConsoleRead.cons (c : UInt8) : ConsoleRead → ConsoleRead
  | .done bytes => .done (c :: bytes)
  | .fail bytes => .fail (c :: bytes)
  | .sleep n bytes => .sleep n (c :: bytes)

/-- `consoleread` の `while (n > 0)` loop のうち、lock を握っている間に進む分。`target` は最初の `n`。 -/
def consolereadLoop (killed : Bool) (target : Nat) (inp : Input) : Nat → Input × ConsoleRead
  | 0 => (inp, .done [])
  | n + 1 =>
    if inp.r = inp.w then
      if killed then (inp, .fail []) else (inp, .sleep (n + 1) [])
    else
      let c := inp.buf (inp.r.toNat % INPUT_BUF)
      let inp := { inp with r := inp.r + 1 }
      if c = C 'D' then
        -- すでに写した byte があれば、^D を次の read のために残す（`input.r--`）
        if n + 1 < target then ({ inp with r := inp.r - 1 }, .done []) else (inp, .done [])
      else if c = '\n'.toUInt8 then (inp, .done [c])
      else
        let res := consolereadLoop killed target inp n
        (res.1, res.2.cons c)

/-! ## 行 -/

/-- `r` から `w` までの、commit されてまだ読まれていない文字。 -/
def Input.ready (inp : Input) : List UInt8 :=
  Ring.window INPUT_BUF inp.buf inp.r (inp.w - inp.r).toNat

/-- `r` から `w` までが読める行 `ready`、`w` から `e` までが編集中の行 `edit` である。 -/
structure Input.Holds (inp : Input) (ready edit : List UInt8) : Prop where
  ring : Ring.Holds INPUT_BUF inp.buf inp.r inp.e (ready ++ edit)
  dist_w : (inp.w - inp.r).toNat = ready.length

/-- 読める行の先頭は位置 `r` にあり、`r` を進めると残りが読める行になる。 -/
theorem Input.ready_cons {inp : Input} {c : UInt8} {rest : List UInt8} (h : inp.ready = c :: rest) :
    inp.r ≠ inp.w ∧ inp.buf (inp.r.toNat % INPUT_BUF) = c ∧ { inp with r := inp.r + 1 }.ready = rest := by
  have hlen : (inp.w - inp.r).toNat = rest.length + 1 := by
    have := congrArg List.length h
    rwa [Input.ready, Ring.window, List.length_map, List.length_range, List.length_cons] at this
  unfold Input.ready at h ⊢
  rw [hlen, Ring.window_succ INPUT_BUF_dvd, List.cons.injEq] at h
  obtain ⟨hc, hrest⟩ := h
  refine ⟨fun hrw => ?_, hc, ?_⟩
  · rw [hrw, Ring.dist_self] at hlen
    exact Nat.succ_ne_zero _ hlen.symm
  · show Ring.window INPUT_BUF inp.buf (inp.r + 1) (inp.w - (inp.r + 1)).toNat = rest
    rw [Ring.dist_succ_left hlen]
    exact hrest

namespace Input.Holds

variable {inp : Input} {ready edit : List UInt8}

theorem ready_eq (h : inp.Holds ready edit) : inp.ready = ready := by
  unfold Input.ready
  rw [h.dist_w]
  exact Ring.Holds.window_prefix h.ring

/-- `e ≠ w` なら編集中の行は空でない。 -/
theorem edit_ne_nil (h : inp.Holds ready edit) (hew : inp.e ≠ inp.w) : edit ≠ [] := by
  rintro rfl
  apply hew
  refine Ring.dist_inj (r := inp.r) ?_
  rw [h.ring.dist, h.dist_w, List.append_nil]

/-- backspace：`e` を一つ戻すと、編集中の行の末尾が消える。 -/
theorem backspace {c : UInt8} (h : inp.Holds ready (edit ++ [c])) :
    ({ inp with e := inp.e - 1 } : Input).Holds ready edit := by
  have hring : Ring.Holds INPUT_BUF inp.buf inp.r inp.e (ready ++ edit ++ [c]) := by
    rw [List.append_assoc]
    exact h.ring
  exact ⟨(hring.dropLast INPUT_BUF_dvd).2, h.dist_w⟩

/-- 空きがあれば、打った文字は編集中の行の末尾に付く。 -/
theorem type (h : inp.Holds ready edit) (hroom : inp.e - inp.r < INPUT_BUF.toUInt32) (c : UInt8) :
    ({ inp with buf := Ring.put INPUT_BUF inp.buf inp.e c, e := inp.e + 1 } : Input).Holds ready (edit ++ [c]) := by
  have hlen : (ready ++ edit).length < INPUT_BUF := by
    rw [UInt32.lt_iff_toNat_lt, h.ring.dist, UInt32.toNat_ofNat_of_lt' INPUT_BUF_lt] at hroom
    exact hroom
  have hring := h.ring.put INPUT_BUF_dvd INPUT_BUF_lt hlen c
  rw [List.append_assoc] at hring
  exact ⟨hring, h.dist_w⟩

/-- commit：`w` を `e` に進めると、編集中の行が読める行の末尾に付く。 -/
theorem commit (h : inp.Holds ready edit) : ({ inp with w := inp.e } : Input).Holds (ready ++ edit) [] := by
  refine ⟨?_, h.ring.dist⟩
  rw [List.append_nil]
  exact h.ring

end Input.Holds

/-- 行の末尾を一つ取り出す。 -/
theorem exists_concat {l : List UInt8} (h : l ≠ []) : ∃ l₀ c, l = l₀ ++ [c] := by
  rcases List.eq_nil_or_concat l with rfl | ⟨l₀, c, rfl⟩
  · exact absurd rfl h
  · exact ⟨l₀, c, List.concat_eq_append⟩

/-- `^U` は `e` だけを動かし、編集中の行をその先頭部分にする。 -/
theorem killLine_holds (inp : Input) {ready edit : List UInt8} (h : inp.Holds ready edit) :
    (killLine inp).r = inp.r ∧ (killLine inp).w = inp.w ∧ ∃ edit', edit' <+: edit ∧ (killLine inp).Holds ready edit' := by
  -- 帰納法は `killLine` の再帰について。一回ごとに `backspace` と同じく末尾が一つ消える
  induction inp using killLine.induct generalizing edit with
  | case1 inp hdel ih =>
    obtain ⟨edit₀, c, rfl⟩ := exists_concat (h.edit_ne_nil hdel.1)
    obtain ⟨hr, hw, edit', hpre, hk⟩ := ih h.backspace
    have heq : killLine inp = killLine { inp with e := inp.e - 1 } := by
      rw [killLine, if_pos hdel]
    rw [heq]
    exact ⟨hr, hw, edit', hpre.trans (List.prefix_append edit₀ [c]), hk⟩
  | case2 inp hstop =>
    have heq : killLine inp = inp := by
      rw [killLine, if_neg hstop]
    rw [heq]
    exact ⟨rfl, rfl, edit, List.prefix_refl edit, h⟩

/-- 一文字の処理は `r` を動かさず、読める行を後ろに伸ばすだけである。 -/
theorem consoleintrChar_holds {inp : Input} {ready edit : List UInt8} (h : inp.Holds ready edit) (c : UInt8) :
    (consoleintrChar inp c).r = inp.r ∧ ∃ new edit', (consoleintrChar inp c).Holds (ready ++ new) edit' := by
  have hsame : inp.r = inp.r ∧ ∃ new edit', inp.Holds (ready ++ new) edit' :=
    ⟨rfl, [], edit, by rw [List.append_nil]; exact h⟩
  unfold consoleintrChar
  split
  · exact hsame
  split
  · -- ^U
    obtain ⟨hr, -, edit', -, hk⟩ := killLine_holds inp h
    exact ⟨hr, [], edit', by rw [List.append_nil]; exact hk⟩
  split
  · -- backspace
    split
    · rename_i hew
      obtain ⟨edit₀, c₀, rfl⟩ := exists_concat (h.edit_ne_nil hew)
      exact ⟨rfl, [], edit₀, by rw [List.append_nil]; exact h.backspace⟩
    · exact hsame
  split
  · rename_i hroom
    generalize (if c = '\r'.toUInt8 then '\n'.toUInt8 else c) = c'
    have ht := h.type hroom.2 c'
    simp only []
    split
    · -- 行を commit する
      exact ⟨rfl, edit ++ [c'], [], ht.commit⟩
    · exact ⟨rfl, [], edit ++ [c'], by rw [List.append_nil]; exact ht⟩
  · exact hsame

/-- `consoleintr` は `r` を動かさず、読める行を後ろに伸ばすだけである。 -/
theorem consoleintr_holds (cs : List UInt8) {inp : Input} {ready edit : List UInt8} (h : inp.Holds ready edit) :
    (consoleintr inp cs).r = inp.r ∧ ∃ new edit', (consoleintr inp cs).Holds (ready ++ new) edit' := by
  induction cs generalizing inp ready edit with
  | nil => exact ⟨rfl, [], edit, by rw [List.append_nil]; exact h⟩
  | cons c cs ih =>
    obtain ⟨hr, new, edit', h'⟩ := consoleintrChar_holds h c
    obtain ⟨hr', new', edit'', h''⟩ := ih h'
    refine ⟨hr'.trans hr, new ++ new', edit'', ?_⟩
    rw [← List.append_assoc]
    exact h''

@[simp] theorem ConsoleRead.bytes_cons (c : UInt8) (res : ConsoleRead) : (res.cons c).bytes = c :: res.bytes := by
  cases res <;> rfl

/-- `r` を進めて戻すと元の位置である。 -/
theorem Input.with_r_succ_pred (inp : Input) : ({ inp with r := inp.r + 1 - 1 } : Input) = inp := by
  rw [UInt32.add_sub_cancel]

/--
読む段は読める行の先頭 `consumed` を取り、そのうち ^D 以外を写す。
`w`・`e` と編集中の行には触れない。
-/
theorem consolereadLoop_holds (killed : Bool) (target n : Nat) {inp : Input} {ready edit : List UInt8}
    (h : inp.Holds ready edit) :
    ∃ consumed ready', ready = consumed ++ ready' ∧ (consolereadLoop killed target inp n).1.Holds ready' edit ∧
      (consolereadLoop killed target inp n).2.bytes = consumed.filter (· != C 'D') := by
  -- 帰納法は残りの個数について。一文字読むごとに読める行の先頭が一つ減る
  induction n generalizing inp ready with
  | zero => exact ⟨[], ready, rfl, h, rfl⟩
  | succ n ih =>
    by_cases hrw : inp.r = inp.w
    · -- 空：眠るか `-1`
      have heq : (consolereadLoop killed target inp (n + 1)).1 = inp ∧
          (consolereadLoop killed target inp (n + 1)).2.bytes = [] := by
        simp only [consolereadLoop, if_pos hrw]
        split <;> exact ⟨rfl, rfl⟩
      rw [heq.1, heq.2]
      exact ⟨[], ready, rfl, h, rfl⟩
    · -- 空でなければ読める行は `c :: ready₀`
      obtain ⟨c, ready₀, rfl⟩ := Ring.exists_cons_of_dist h.dist_w hrw
      obtain ⟨hc, hring⟩ := Ring.Holds.take INPUT_BUF_dvd h.ring
      have h₀ : ({ inp with r := inp.r + 1 } : Input).Holds ready₀ edit :=
        ⟨hring, Ring.dist_succ_left h.dist_w⟩
      by_cases hD : c = C 'D'
      · by_cases hkeep : n + 1 < target
        · -- ^D を残す
          have heq : consolereadLoop killed target inp (n + 1) = (inp, .done []) := by
            simp only [consolereadLoop, if_neg hrw, hc, if_pos hD, if_pos hkeep, Input.with_r_succ_pred]
          rw [heq]
          exact ⟨[], c :: ready₀, rfl, h, rfl⟩
        · -- ^D を読み捨てる
          have heq : consolereadLoop killed target inp (n + 1) = ({ inp with r := inp.r + 1 }, .done []) := by
            simp only [consolereadLoop, if_neg hrw, hc, if_pos hD, if_neg hkeep]
          rw [heq]
          refine ⟨[c], ready₀, rfl, h₀, ?_⟩
          simp [ConsoleRead.bytes, hD]
      · by_cases hnl : c = '\n'.toUInt8
        · -- 改行を写して止まる
          have heq : consolereadLoop killed target inp (n + 1) = ({ inp with r := inp.r + 1 }, .done [c]) := by
            simp only [consolereadLoop, if_neg hrw, hc, if_neg hD, if_pos hnl]
          rw [heq]
          refine ⟨[c], ready₀, rfl, h₀, ?_⟩
          simp [ConsoleRead.bytes, hD]
        · -- 写して続ける
          have heq : consolereadLoop killed target inp (n + 1) =
              ((consolereadLoop killed target { inp with r := inp.r + 1 } n).1,
                (consolereadLoop killed target { inp with r := inp.r + 1 } n).2.cons c) := by
            simp only [consolereadLoop, if_neg hrw, hc, if_neg hD, if_neg hnl]
          obtain ⟨consumed, ready', hready₀, hh, hbytes⟩ := ih h₀
          rw [heq]
          refine ⟨c :: consumed, ready', by rw [hready₀, List.cons_append], hh, ?_⟩
          rw [ConsoleRead.bytes_cons, hbytes]
          simp [hD]

section Stops

variable (killed : Bool) (target : Nat) {post : List UInt8}

/-- 読む段は、改行の前で `n` が尽きなければ、改行まで写して止まる。 -/
theorem consolereadLoop_newline :
    ∀ {pre : List UInt8} {inp : Input} (n : Nat), inp.ready = pre ++ '\n'.toUInt8 :: post →
      (∀ x ∈ pre, x ≠ '\n'.toUInt8 ∧ x ≠ C 'D') → pre.length < n →
      (consolereadLoop killed target inp n).2 = .done (pre ++ ['\n'.toUInt8]) ∧
        (consolereadLoop killed target inp n).1.ready = post := by
  -- 帰納法は改行より前の文字について
  intro pre
  induction pre with
  | nil =>
    intro inp n hready _ hn
    obtain ⟨m, rfl⟩ : ∃ m, n = m + 1 := Nat.exists_eq_succ_of_ne_zero (by rw [List.length_nil] at hn; omega)
    obtain ⟨hrw, hc, hpost⟩ := Input.ready_cons hready
    have hnD : ('\n'.toUInt8 : UInt8) ≠ C 'D' := by decide
    simp only [consolereadLoop, if_neg hrw, hc, if_neg hnD]
    exact ⟨rfl, hpost⟩
  | cons x pre ih =>
    intro inp n hready hpre hn
    rw [List.length_cons] at hn
    obtain ⟨m, rfl⟩ : ∃ m, n = m + 1 := Nat.exists_eq_succ_of_ne_zero (by omega)
    obtain ⟨hrw, hc, hrest⟩ := Input.ready_cons hready
    obtain ⟨hxn, hxD⟩ := hpre x List.mem_cons_self
    obtain ⟨hdone, hpost⟩ := ih m hrest (fun y hy => hpre y (List.mem_cons_of_mem x hy)) (by omega)
    simp only [consolereadLoop, if_neg hrw, hc, if_neg hxD, if_neg hxn]
    refine ⟨?_, hpost⟩
    rw [hdone]
    rfl

/--
読む段は、^D の前で `n` が尽きなければ、^D を写さずに止まる。^D を読み捨てるのは、この read が
まだ何も写していないとき（`pre` が空で `n = target`）だけで、そうでなければ次の read に残る。
-/
theorem consolereadLoop_eof :
    ∀ {pre : List UInt8} {inp : Input} (n : Nat), inp.ready = pre ++ C 'D' :: post →
      (∀ x ∈ pre, x ≠ '\n'.toUInt8 ∧ x ≠ C 'D') → pre.length < n → n ≤ target →
      (consolereadLoop killed target inp n).2 = .done pre ∧
        (consolereadLoop killed target inp n).1.ready = if pre = [] ∧ n = target then post else C 'D' :: post := by
  intro pre
  induction pre with
  | nil =>
    intro inp n hready _ hn hle
    obtain ⟨m, rfl⟩ : ∃ m, n = m + 1 := Nat.exists_eq_succ_of_ne_zero (by rw [List.length_nil] at hn; omega)
    obtain ⟨hrw, hc, hpost⟩ := Input.ready_cons hready
    have hstep : consolereadLoop killed target inp (m + 1) =
        if m + 1 < target then (inp, .done []) else ({ inp with r := inp.r + 1 }, .done []) := by
      simp only [consolereadLoop, if_neg hrw, hc, if_true, Input.with_r_succ_pred]
    rw [hstep]
    by_cases hkeep : m + 1 < target
    · -- すでに写した byte がある：^D は残る
      rw [if_pos hkeep, if_neg (fun h => Nat.ne_of_lt hkeep h.2)]
      exact ⟨rfl, hready⟩
    · -- この read の最初の文字：^D を読み捨てる
      rw [if_neg hkeep, if_pos ⟨rfl, by omega⟩]
      exact ⟨rfl, hpost⟩
  | cons x pre ih =>
    intro inp n hready hpre hn hle
    rw [List.length_cons] at hn
    obtain ⟨m, rfl⟩ : ∃ m, n = m + 1 := Nat.exists_eq_succ_of_ne_zero (by omega)
    obtain ⟨hrw, hc, hrest⟩ := Input.ready_cons hready
    obtain ⟨hxn, hxD⟩ := hpre x List.mem_cons_self
    obtain ⟨hdone, hpost⟩ := ih m hrest (fun y hy => hpre y (List.mem_cons_of_mem x hy)) (by omega) (by omega)
    simp only [consolereadLoop, if_neg hrw, hc, if_neg hxD, if_neg hxn]
    -- 先に `x` を写したので、^D は残る
    rw [if_neg (fun h => absurd h.2 (by omega))] at hpost
    rw [if_neg (fun h => List.cons_ne_nil x pre h.1)]
    refine ⟨?_, hpost⟩
    rw [hdone]
    rfl

end Stops

/-! ## 段の列 -/

/-- 起動時の `input`（static なので 0 で埋まっている）。 -/
def input : Input :=
  { buf := fun _ => 0, r := 0, w := 0, e := 0 }

/-- lock を握って進む一段。 -/
inductive ConsoleCall
  /-- keyboard か uart の割り込みで `consoleintr` が文字の列を処理する。 -/
  | intr (cs : List UInt8)
  /-- `consoleread` の一段。`target` はその呼び出しの最初の `n`、`n` は残りの個数。 -/
  | read (killed : Bool) (target n : Nat)

/-- `input` と、それまでに commit された文字の列・`consoleread` が写した byte の列。 -/
structure ConsoleLog where
  input : Input
  committed : List UInt8
  delivered : List UInt8

/-- 一段進める。`consoleintr` が commit したのは、前の `w` から新しい `w` までの文字である。 -/
def ConsoleLog.step (l : ConsoleLog) : ConsoleCall → ConsoleLog
  | .intr cs =>
    let inp := consoleintr l.input cs
    { l with input := inp,
             committed := l.committed ++ Ring.window INPUT_BUF inp.buf l.input.w (inp.w - l.input.w).toNat }
  | .read killed target n =>
    let res := consolereadLoop killed target l.input n
    { l with input := res.1, delivered := l.delivered ++ res.2.bytes }

/-- 段の列を順に進める。 -/
def consoleRun (l : ConsoleLog) (calls : List ConsoleCall) : ConsoleLog :=
  calls.foldl ConsoleLog.step l

/-- 起動直後。 -/
def ConsoleLog.init : ConsoleLog :=
  { input := Xv6.input, committed := [], delivered := [] }

/--
commit された文字の列は、読み終えた文字 `consumed` に読める行を続けたもので、写した byte は
`consumed` から ^D を除いたものである。
-/
def ConsoleLog.Inv (l : ConsoleLog) : Prop :=
  ∃ consumed ready edit, l.input.Holds ready edit ∧ l.committed = consumed ++ ready ∧
    l.delivered = consumed.filter (· != C 'D')

theorem ConsoleLog.Inv.init : ConsoleLog.init.Inv :=
  ⟨[], [], [], ⟨Ring.Holds.empty _ 0, Ring.dist_self 0⟩, rfl, rfl⟩

theorem ConsoleLog.Inv.step {l : ConsoleLog} (h : l.Inv) (c : ConsoleCall) : (l.step c).Inv := by
  obtain ⟨consumed, ready, edit, hh, hcom, hdel⟩ := h
  cases c with
  | intr cs =>
    obtain ⟨hr, new, edit', hh'⟩ := consoleintr_holds cs hh
    -- 前の `w` から新しい `w` までの窓が、読める行に足された `new` である
    have hw : (l.input.w - (consoleintr l.input cs).r).toNat = ready.length := by
      rw [hr]
      exact hh.dist_w
    have hlen : ((consoleintr l.input cs).w - l.input.w).toNat = new.length := by
      rw [Ring.dist_sub hw hh'.dist_w (by simp), List.length_append, Nat.add_sub_cancel_left]
    have hwin : Ring.window INPUT_BUF (consoleintr l.input cs).buf l.input.w new.length = new :=
      Ring.Holds.window_mid INPUT_BUF_dvd hh'.ring hw
    refine ⟨consumed, ready ++ new, edit', hh', ?_, hdel⟩
    show l.committed ++ Ring.window INPUT_BUF (consoleintr l.input cs).buf l.input.w
      ((consoleintr l.input cs).w - l.input.w).toNat = consumed ++ (ready ++ new)
    rw [hlen, hwin, hcom, List.append_assoc]
  | read killed target n =>
    obtain ⟨consumed', ready', hready, hh', hbytes⟩ := consolereadLoop_holds killed target n hh
    refine ⟨consumed ++ consumed', ready', edit, hh', ?_, ?_⟩
    · show l.committed = consumed ++ consumed' ++ ready'
      rw [hcom, hready, List.append_assoc]
    · show l.delivered ++ (consolereadLoop killed target l.input n).2.bytes = (consumed ++ consumed').filter (· != C 'D')
      rw [hdel, hbytes, List.filter_append]

theorem ConsoleLog.Inv.run {l : ConsoleLog} (h : l.Inv) (calls : List ConsoleCall) : (consoleRun l calls).Inv := by
  induction calls generalizing l with
  | nil => exact h
  | cons c calls ih => exact ih (h.step c)

/--
console の line discipline。起動後のどの段の列の後でも、`uint` の距離で
`r ≤ w ≤ e ≤ r + INPUT_BUF` が成り立つ。`consoleintr` は `r` を動かさず、読める行を後ろに伸ばす
だけで、commit された文字を消さない。`consoleread` が写した byte に読める行を続けると、commit
された文字の列から ^D を除いたものになる。読む段は改行の後で止まり、^D は写さずに止まって、
すでに写した byte があれば次の read に残る。
-/
theorem console_line_discipline (calls : List ConsoleCall) :
    let l := consoleRun ConsoleLog.init calls
    (l.input.w - l.input.r).toNat ≤ (l.input.e - l.input.r).toNat ∧
    (l.input.e - l.input.r).toNat ≤ INPUT_BUF ∧
    (∀ cs, (consoleintr l.input cs).r = l.input.r ∧ l.input.ready <+: (consoleintr l.input cs).ready) ∧
    l.delivered ++ l.input.ready.filter (· != C 'D') = l.committed.filter (· != C 'D') ∧
    (∀ killed target n pre post, l.input.ready = pre ++ '\n'.toUInt8 :: post →
      (∀ x ∈ pre, x ≠ '\n'.toUInt8 ∧ x ≠ C 'D') → pre.length < n →
      (consolereadLoop killed target l.input n).2 = .done (pre ++ ['\n'.toUInt8]) ∧
        (consolereadLoop killed target l.input n).1.ready = post) ∧
    (∀ killed target n pre post, l.input.ready = pre ++ C 'D' :: post →
      (∀ x ∈ pre, x ≠ '\n'.toUInt8 ∧ x ≠ C 'D') → pre.length < n → n ≤ target →
      (consolereadLoop killed target l.input n).2 = .done pre ∧
        (consolereadLoop killed target l.input n).1.ready =
          if pre = [] ∧ n = target then post else C 'D' :: post) := by
  intro l
  have hinv : l.Inv := ConsoleLog.Inv.init.run calls
  obtain ⟨consumed, ready, edit, hh, hcom, hdel⟩ := hinv
  have hready : l.input.ready = ready := hh.ready_eq
  refine ⟨?_, ?_, fun cs => ?_, ?_, fun killed target n _ _ => consolereadLoop_newline killed target n,
    fun killed target n _ _ => consolereadLoop_eof killed target n⟩
  · rw [hh.dist_w, hh.ring.dist, List.length_append]
    exact Nat.le_add_right _ _
  · rw [hh.ring.dist]
    exact hh.ring.length_le
  · -- 編集は `w` より前の文字に触れない
    obtain ⟨hr, new, edit', hh'⟩ := consoleintr_holds cs hh
    refine ⟨hr, ?_⟩
    rw [hh'.ready_eq, hready]
    exact List.prefix_append ready new
  · rw [hready, hcom, hdel, List.filter_append]

end Xv6

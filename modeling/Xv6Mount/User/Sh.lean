import Mathlib.Data.List.Basic
import Xv6Mount.Infra.Trace

/-!
# shell の構文解析

`sh.c` の `gettoken`・`peek`・`parsecmd` とその下の再帰下降（`parseline`・`parsepipe`・
`parseexec`・`parseblock`・`parseredirs`）と `nulterminate`。入力は文字の列 `buf` で、`es` は
`strlen(buf)` の位置である。位置 `s` の文字 `*s` は `es` 以降では NUL として読む。

構文木の word とファイル名は、C と同じく buffer の中の位置の組 `(q, eq)` で持つ。
`nulterminate` はそれぞれの `eq` に NUL を書き、`argv[i]` は `q` から NUL までの文字列になる。

`parseexec` は `execcmd` を作ってから、それを包む `REDIR` の節を `parseredirs` で重ね、
`argv` は後から同じ `execcmd` に書き込む。このモデルは `REDIR` を先に重ね、最後に
一番内側の `EXEC` の節に `argv` を入れる（`Cmd.fillArgv`）。

## 停止性

再帰下降の関数はどれも fuel を受け取り、呼び出しの深さごとに一つ減らす。使い切れば `hang` で
止める。`parsecmd` には入力の長さから決めた十分な fuel（`shFuel`）を渡す。`skipWs` と
`skipWord` は `es - s` で止まる。
-/

namespace Xv6.Sh

open Infra

/-! ## 文字と token -/

/-- C の文字列の終端。 -/
def NUL : Char := '\x00'

/-- `whitespace`：`" \t\r\n\v"`。 -/
def whitespace : List Char := [' ', '\t', '\r', '\n', '\x0b']

/-- `symbols`：`"<|>&;()"`。 -/
def symbols : List Char := ['<', '|', '>', '&', ';', '(', ')']

/-- `strchr(set, c)` が NULL でないか。`set` を終端の NUL の前まで探すので、`c` が NUL なら NULL を返す。 -/
def strchr (set : List Char) (c : Char) : Bool := set.contains c

/-- `*s`。buffer の `s` 番目の文字。buffer の先は NUL。 -/
def charAt (buf : List Char) (s : Nat) : Char := buf.getD s NUL

/-- `strlen(buf)`。最初の NUL までの長さ。 -/
def strlen (buf : List Char) : Nat := (buf.takeWhile (· != NUL)).length

/-- 空白を読み飛ばす：`while(s < es && strchr(whitespace, *s)) s++;`。 -/
def skipWs (buf : List Char) (es s : Nat) : Nat :=
  if s < es ∧ strchr whitespace (charAt buf s) = true then skipWs buf es (s + 1) else s
termination_by es - s

/-- word を読み進める：`while(s < es && !strchr(whitespace, *s) && !strchr(symbols, *s)) s++;`。 -/
def skipWord (buf : List Char) (es s : Nat) : Nat :=
  if s < es ∧ strchr whitespace (charAt buf s) = false ∧ strchr symbols (charAt buf s) = false then
    skipWord buf es (s + 1)
  else s
termination_by es - s

/-- `gettoken` の結果：token の種類 `ret`、token の始め `q` と終わり `eq`、次に読む位置 `s`。 -/
structure Gettoken where
  ret : Char
  q : Nat
  eq : Nat
  s : Nat

/--
`gettoken(ps, es, &q, &eq)`。空白を飛ばし、token を一つ読み、後ろの空白も飛ばす。記号はその文字、
`>>` は `'+'`、word は `'a'`、入力の終わりは NUL を返す。
-/
def gettoken (buf : List Char) (es ps : Nat) : Gettoken :=
  let s := skipWs buf es ps
  let c := charAt buf s
  let (ret, e) :=
    if c = NUL then (c, s)
    else if c ∈ ['|', '(', ')', ';', '&', '<'] then (c, s + 1)
    else if c = '>' then
      if charAt buf (s + 1) = '>' then ('+', s + 2) else ('>', s + 1)
    else ('a', skipWord buf es s)
  ⟨ret, s, e, skipWs buf es e⟩

/-- `peek(ps, es, toks)`。空白を飛ばした位置と、そこの文字が `toks` にあるか。 -/
def peek (buf : List Char) (es ps : Nat) (toks : List Char) : Bool × Nat :=
  let s := skipWs buf es ps
  (charAt buf s != NUL && strchr toks (charAt buf s), s)

/-! ## 字句解析の性質

`gettoken` の五つの場合を `gettoken_cases` で一度だけ述べ、以下の補題はそれから導く。位置についての
補題の多くは、`es` が最初の NUL の位置であること（`Terminated`）を仮定する。
-/

/--
word の文字：NUL でなく、`strchr(whitespace, c)` も `strchr(symbols, c)` も NULL のもの。`skipWord` は
`es` の手前で止まり、`es` の手前に NUL はないので、`skipWord` が読み進む文字はこれである。
-/
def isWordChar (c : Char) : Bool := c != NUL && !strchr whitespace c && !strchr symbols c

theorem isWordChar_eq_true {c : Char} :
    isWordChar c = true ↔ c ≠ NUL ∧ strchr whitespace c = false ∧ strchr symbols c = false := by
  simp [isWordChar, and_assoc]

/-- `es` が buffer の最初の NUL の位置であること。`es = s + strlen(s)` はこれを満たす。 -/
structure Terminated (buf : List Char) (es : Nat) : Prop where
  at_end : charAt buf es = NUL
  below : ∀ s < es, charAt buf s ≠ NUL

theorem terminated_strlen (buf : List Char) : Terminated buf (strlen buf) := by
  induction buf with
  | nil => exact ⟨rfl, fun s hs => absurd hs (Nat.not_lt_zero s)⟩
  | cons c l ih =>
    by_cases hc : c = NUL
    · have h0 : strlen (c :: l) = 0 := by simp [strlen, hc]
      rw [h0]
      exact ⟨hc, fun s hs => absurd hs (Nat.not_lt_zero s)⟩
    · have h1 : strlen (c :: l) = strlen l + 1 := by
        simp [strlen, hc]
      rw [h1]
      constructor
      · exact ih.at_end
      · intro s hs
        cases s with
        | zero => exact hc
        | succ s => exact ih.below s (by omega)

section lexer

variable {buf : List Char} {es : Nat}

theorem le_skipWs (ps : Nat) : ps ≤ skipWs buf es ps := by
  fun_induction skipWs buf es ps with
  | case1 s h ih => omega
  | case2 s h => omega

theorem skipWs_le {ps : Nat} (h : ps ≤ es) : skipWs buf es ps ≤ es := by
  fun_induction skipWs buf es ps with
  | case1 s hs ih => exact ih (by omega)
  | case2 s hs => exact h

theorem skipWs_of_stop {s : Nat} (h : ¬ (s < es ∧ strchr whitespace (charAt buf s) = true)) :
    skipWs buf es s = s := by
  rw [skipWs, if_neg h]

/-- 空白を飛ばした先は、入力の終わりか空白でない文字。 -/
theorem skipWs_stop (ps : Nat) :
    ¬ (skipWs buf es ps < es ∧ strchr whitespace (charAt buf (skipWs buf es ps)) = true) := by
  fun_induction skipWs buf es ps with
  | case1 s h ih => exact ih
  | case2 s h => exact h

@[simp] theorem skipWs_skipWs (ps : Nat) : skipWs buf es (skipWs buf es ps) = skipWs buf es ps :=
  skipWs_of_stop (skipWs_stop ps)

theorem le_skipWord (s : Nat) : s ≤ skipWord buf es s := by
  fun_induction skipWord buf es s with
  | case1 s h ih => omega
  | case2 s h => omega

theorem skipWord_le {s : Nat} (h : s ≤ es) : skipWord buf es s ≤ es := by
  fun_induction skipWord buf es s with
  | case1 s hs ih => exact ih (by omega)
  | case2 s hs => exact h

theorem lt_skipWord {s : Nat} (hs : s < es) (hw : isWordChar (charAt buf s) = true) :
    s < skipWord buf es s := by
  rw [skipWord, if_pos ⟨hs, (isWordChar_eq_true.mp hw).2⟩]
  exact le_skipWord (s + 1)

/-- `es` の手前に NUL がなければ、word は word の文字だけからなる。 -/
theorem isWordChar_of_lt_skipWord (hnul : ∀ i < es, charAt buf i ≠ NUL) {s i : Nat} (hi : s ≤ i)
    (hi' : i < skipWord buf es s) : isWordChar (charAt buf i) = true := by
  fun_induction skipWord buf es s with
  | case1 s h ih =>
    rcases Nat.eq_or_lt_of_le hi with rfl | hlt
    · exact isWordChar_eq_true.mpr ⟨hnul _ h.1, h.2⟩
    · exact ih hlt hi'
  | case2 s h => omega

/-- word の後ろは、入力の終わりか word でない文字。 -/
theorem skipWord_stop (s : Nat) (h : skipWord buf es s < es) :
    isWordChar (charAt buf (skipWord buf es s)) = false := by
  fun_induction skipWord buf es s with
  | case1 s hs ih => exact ih h
  | case2 s hs =>
    by_contra hw
    rw [Bool.not_eq_false, isWordChar_eq_true] at hw
    exact hs ⟨h, hw.2⟩

/-- `gettoken` の五つの場合：入力の終わり、一文字の記号、`>>`、`>`、word。 -/
theorem gettoken_cases {ps : Nat} {t : Gettoken} (ht : gettoken buf es ps = t) :
    t.q = skipWs buf es ps ∧ t.s = skipWs buf es t.eq ∧
    (charAt buf t.q = NUL ∧ t.ret = NUL ∧ t.eq = t.q ∨
      charAt buf t.q ∈ ['|', '(', ')', ';', '&', '<'] ∧ t.ret = charAt buf t.q ∧ t.eq = t.q + 1 ∨
      charAt buf t.q = '>' ∧ charAt buf (t.q + 1) = '>' ∧ t.ret = '+' ∧ t.eq = t.q + 2 ∨
      charAt buf t.q = '>' ∧ charAt buf (t.q + 1) ≠ '>' ∧ t.ret = '>' ∧ t.eq = t.q + 1 ∨
      charAt buf t.q ≠ NUL ∧ strchr symbols (charAt buf t.q) = false ∧ t.ret = 'a' ∧
        t.eq = skipWord buf es t.q) := by
  subst ht
  unfold gettoken
  dsimp only
  refine ⟨rfl, rfl, ?_⟩
  split_ifs with h₀ h₁ h₂ h₃
  · exact .inl ⟨h₀, h₀, rfl⟩
  · exact .inr (.inl ⟨h₁, rfl, rfl⟩)
  · exact .inr (.inr (.inl ⟨h₂, h₃, rfl, rfl⟩))
  · exact .inr (.inr (.inr (.inl ⟨h₂, h₃, rfl, rfl⟩)))
  · refine .inr (.inr (.inr (.inr ⟨h₀, ?_, rfl, rfl⟩)))
    simp only [List.mem_cons, List.not_mem_nil, or_false] at h₁
    simp only [strchr, symbols, List.contains, List.elem]
    grind

theorem gettoken_skipWs (ps : Nat) : gettoken buf es (skipWs buf es ps) = gettoken buf es ps := by
  unfold gettoken
  rw [skipWs_skipWs]

theorem gettoken_q_le_eq (ps : Nat) : (gettoken buf es ps).q ≤ (gettoken buf es ps).eq := by
  obtain ⟨-, -, hcase⟩ := gettoken_cases (t := gettoken buf es ps) rfl
  rcases hcase with ⟨-, -, he⟩ | ⟨-, -, he⟩ | ⟨-, -, -, he⟩ | ⟨-, -, -, he⟩ | ⟨-, -, -, he⟩
  all_goals first | omega | exact he ▸ le_skipWord _

theorem gettoken_eq_le_s (ps : Nat) : (gettoken buf es ps).eq ≤ (gettoken buf es ps).s := by
  rw [(gettoken_cases (t := gettoken buf es ps) rfl).2.1]
  exact le_skipWs _

/-- 入力の途中で読んだ token は、終わりの印でなければ空でない。 -/
theorem gettoken_q_lt_eq {ps : Nat} (h : (gettoken buf es ps).q < es)
    (hr : (gettoken buf es ps).ret ≠ NUL) : (gettoken buf es ps).q < (gettoken buf es ps).eq := by
  obtain ⟨hq, -, hcase⟩ := gettoken_cases (t := gettoken buf es ps) rfl
  rcases hcase with ⟨-, hn, -⟩ | ⟨-, -, he⟩ | ⟨-, -, -, he⟩ | ⟨-, -, -, he⟩ | ⟨hnul, hsym, -, he⟩
  · exact absurd hn hr
  · omega
  · omega
  · omega
  · -- word：空白を飛ばした先なので、そこは空白でも記号でもない
    have hws : strchr whitespace (charAt buf (gettoken buf es ps).q) = false := by
      have hstop : ¬ (skipWs buf es ps < es ∧
          strchr whitespace (charAt buf (skipWs buf es ps)) = true) := skipWs_stop ps
      rw [← hq] at hstop
      simpa [h] using hstop
    rw [he]
    exact lt_skipWord h (isWordChar_eq_true.mpr ⟨hnul, hws, hsym⟩)

/-- 入力の途中では、`gettoken` は少なくとも一文字進む。 -/
theorem lt_gettoken_s {ps : Nat} (h : ps < es) (hr : (gettoken buf es ps).ret ≠ NUL) :
    ps < (gettoken buf es ps).s := by
  have hpq : ps ≤ (gettoken buf es ps).q := (gettoken_cases rfl).1 ▸ le_skipWs ps
  have hes : (gettoken buf es ps).eq ≤ (gettoken buf es ps).s := gettoken_eq_le_s ps
  by_cases hq : (gettoken buf es ps).q < es
  · have := gettoken_q_lt_eq hq hr
    omega
  · have : (gettoken buf es ps).q ≤ (gettoken buf es ps).eq := gettoken_q_le_eq ps
    omega

/-- `peek` が止まる位置は、`gettoken` が token を読み始める位置。 -/
@[simp] theorem peek_snd (ps : Nat) (toks : List Char) :
    (peek buf es ps toks).2 = skipWs buf es ps := rfl

/-- 一文字の記号だけを並べた `toks` なら、`peek` は次の token がその中にあるかを見る。 -/
theorem peek_eq_mem {ps : Nat} {toks : List Char}
    (htoks : ∀ c ∈ toks, c ∈ ['|', '(', ')', ';', '&', '<']) :
    (peek buf es ps toks).1 = decide ((gettoken buf es ps).ret ∈ toks) := by
  obtain ⟨hq, -, hcase⟩ := gettoken_cases (t := gettoken buf es ps) rfl
  have hnot : ∀ x, x ∉ ['|', '(', ')', ';', '&', '<'] → x ∉ toks := fun x hx hm => hx (htoks x hm)
  simp only [peek, ← hq]
  rcases hcase with ⟨hc, hr, -⟩ | ⟨hc, hr, -⟩ | ⟨hc, -, hr, -⟩ | ⟨hc, -, hr, -⟩ | ⟨-, hc, hr, -⟩
  · rw [hc, hr]
    simp [hnot NUL (by decide)]
  · rw [hr]
    have hn : (charAt buf (gettoken buf es ps).q == NUL) = false := by
      rw [beq_eq_false_iff_ne]
      intro h
      rw [h] at hc
      exact absurd hc (by decide)
    simp only [strchr, bne, hn, Bool.not_false, Bool.true_and, List.contains_eq_mem]
  · rw [hc, hr]
    simp [strchr, hnot '>' (by decide), hnot '+' (by decide)]
  · rw [hc, hr]
    simp [strchr, hnot '>' (by decide)]
  · -- word：記号でない文字は `toks` にない
    rw [hr]
    have hc' : charAt buf (gettoken buf es ps).q ∉ ['|', '(', ')', ';', '&', '<'] := by
      simp only [strchr, symbols, List.contains_eq_mem, decide_eq_false_iff_not, List.mem_cons,
        List.not_mem_nil] at hc ⊢
      grind
    simp [strchr, hnot _ hc', hnot 'a' (by decide)]

/-- `peek(ps, es, "<>")` は次の token が `<`・`>`・`>>` のどれかかを見る。 -/
theorem peek_redir {ps : Nat} :
    (peek buf es ps ['<', '>']).1 = decide ((gettoken buf es ps).ret ∈ ['<', '>', '+']) := by
  obtain ⟨hq, -, hcase⟩ := gettoken_cases (t := gettoken buf es ps) rfl
  simp only [peek, ← hq]
  rcases hcase with ⟨hc, hr, -⟩ | ⟨hc, hr, -⟩ | ⟨hc, -, hr, -⟩ | ⟨hc, -, hr, -⟩ | ⟨-, hc, hr, -⟩
  · rw [hc, hr]
    decide
  · rw [hr]
    simp only [List.mem_cons, List.not_mem_nil, or_false] at hc
    rcases hc with h | h | h | h | h | h <;> rw [h] <;> decide
  · rw [hc, hr]
    decide
  · rw [hc, hr]
    decide
  · rw [hr]
    simp only [strchr, symbols, List.contains_eq_mem, decide_eq_false_iff_not, List.mem_cons,
      List.not_mem_nil] at hc
    simp only [strchr, List.contains_eq_mem, List.mem_cons, List.not_mem_nil]
    grind

section terminated

variable (ht : Terminated buf es)
include ht

/-- 空白の後が入力の終わりなら、`gettoken` は NUL を返し、位置は `es` にとどまる。 -/
theorem gettoken_of_end {ps : Nat} (h : skipWs buf es ps = es) :
    (gettoken buf es ps).ret = NUL ∧ (gettoken buf es ps).s = es := by
  obtain ⟨hq, hs, hcase⟩ := gettoken_cases (t := gettoken buf es ps) rfl
  rw [← hq] at h
  have hc : charAt buf (gettoken buf es ps).q = NUL := by
    rw [h]
    exact ht.at_end
  rcases hcase with ⟨-, hn, he⟩ | ⟨hm, -, -⟩ | ⟨hg, -⟩ | ⟨hg, -⟩ | ⟨hnul, -⟩
  · refine ⟨hn, ?_⟩
    rw [hs, he, h]
    exact skipWs_of_stop (by omega)
  · rw [hc] at hm
    exact absurd hm (by decide)
  · rw [hc] at hg
    exact absurd hg (by decide)
  · rw [hc] at hg
    exact absurd hg (by decide)
  · exact absurd hc hnul

/-- 入力の途中では、`gettoken` は空でない token を読み、`es` を越えない。 -/
theorem gettoken_of_lt {ps : Nat} (h : skipWs buf es ps < es) :
    (gettoken buf es ps).ret ≠ NUL ∧ (gettoken buf es ps).q < (gettoken buf es ps).eq ∧
      (gettoken buf es ps).eq ≤ es := by
  obtain ⟨hq, -, hcase⟩ := gettoken_cases (t := gettoken buf es ps) rfl
  rw [← hq] at h
  have hc := ht.below _ h
  have hr : (gettoken buf es ps).ret ≠ NUL := by
    rcases hcase with ⟨hn, -, -⟩ | ⟨-, hr, -⟩ | ⟨-, -, hr, -⟩ | ⟨-, -, hr, -⟩ | ⟨-, -, hr, -⟩
    · exact absurd hn hc
    · exact hr ▸ hc
    all_goals rw [hr]; decide
  refine ⟨hr, gettoken_q_lt_eq h hr, ?_⟩
  rcases hcase with ⟨hn, -, -⟩ | ⟨-, -, he⟩ | ⟨-, hg, -, he⟩ | ⟨-, -, -, he⟩ | ⟨-, -, -, he⟩
  · exact absurd hn hc
  · omega
  · -- `>>`：二つ目の `>` は NUL でないので、まだ `es` の手前にある
    have : (gettoken buf es ps).q + 1 ≠ es := by
      intro h1
      rw [h1, ht.at_end] at hg
      exact absurd hg (by decide)
    omega
  · omega
  · exact he ▸ skipWord_le (Nat.le_of_lt h)

/-- word の token は word の文字だけからなり、その直後は word の文字でない。 -/
theorem gettoken_word {ps : Nat} (hps : ps ≤ es) (hr : (gettoken buf es ps).ret = 'a') :
    (∀ i, (gettoken buf es ps).q ≤ i → i < (gettoken buf es ps).eq →
        isWordChar (charAt buf i) = true) ∧
      isWordChar (charAt buf (gettoken buf es ps).eq) = false := by
  obtain ⟨hq, -, hcase⟩ := gettoken_cases (t := gettoken buf es ps) rfl
  rcases hcase with ⟨-, hn, -⟩ | ⟨hc, hn, -⟩ | ⟨-, -, hn, -⟩ | ⟨-, -, hn, -⟩ | ⟨-, -, -, he⟩
  · rw [hr] at hn
    exact absurd hn (by decide)
  · rw [hr] at hn
    rw [← hn] at hc
    exact absurd hc (by decide)
  · rw [hr] at hn
    exact absurd hn (by decide)
  · rw [hr] at hn
    exact absurd hn (by decide)
  · rw [he]
    refine ⟨fun i hi hi' => isWordChar_of_lt_skipWord ht.below hi hi', ?_⟩
    have hle : skipWord buf es (gettoken buf es ps).q ≤ es := skipWord_le (hq ▸ skipWs_le hps)
    rcases Nat.lt_or_eq_of_le hle with hlt | heq
    · exact skipWord_stop _ hlt
    · rw [heq, ht.at_end]
      decide

end terminated

end lexer

/-! ## 構文木 -/

/-- `open` の mode。 -/
def O_RDONLY : Nat := 0x000
def O_WRONLY : Nat := 0x001
def O_CREATE : Nat := 0x200

/-- `MAXARGS`。 -/
def MAXARGS : Nat := 10

/-- `struct cmd`。word とファイル名は buffer の中の `(q, eq)`。 -/
inductive Cmd where
  | exec (argv : List (Nat × Nat))
  | redir (cmd : Cmd) (file efile mode fd : Nat)
  | pipe (left right : Cmd)
  | list (left right : Cmd)
  | back (cmd : Cmd)
  deriving DecidableEq, Repr

/-- `REDIR` の節の内側の `execcmd` に `argv` を入れる。 -/
def Cmd.fillArgv : Cmd → List (Nat × Nat) → Cmd
  | .redir c file efile mode fd, argv => .redir (c.fillArgv argv) file efile mode fd
  | .exec _, argv => .exec argv
  | c, _ => c

/-! ## 再帰下降 -/

section parse

variable (buf : List Char) (es : Nat)

/-- `parseline` の `while(peek(ps, es, "&"))` の loop。`&` ごとに `BACK` で包む。 -/
def parseBacks : Nat → Cmd → Nat → Except Stop (Cmd × Nat)
  | 0, _, _ => .error .hang
  | fuel + 1, cmd, ps =>
    let (b, ps) := peek buf es ps ['&']
    if b then parseBacks fuel (.back cmd) (gettoken buf es ps).s
    else .ok (cmd, ps)

/-- `parseredirs(cmd, ps, es)`。`<`・`>`・`>>` と file の組ごとに `REDIR` で包む。 -/
def parseredirs : Nat → Cmd → Nat → Except Stop (Cmd × Nat)
  | 0, _, _ => .error .hang
  | fuel + 1, cmd, ps =>
    let (b, ps) := peek buf es ps ['<', '>']
    if b then
      let tok := gettoken buf es ps
      let file := gettoken buf es tok.s
      if file.ret ≠ 'a' then .error (.panic "missing file for redirection")
      else
        let cmd :=
          if tok.ret = '<' then .redir cmd file.q file.eq O_RDONLY 0
          else if tok.ret = '>' then .redir cmd file.q file.eq (O_WRONLY ||| O_CREATE) 1
          else if tok.ret = '+' then .redir cmd file.q file.eq (O_WRONLY ||| O_CREATE) 1
          else cmd
        parseredirs fuel cmd file.s
    else .ok (cmd, ps)

/--
`parseexec` の word の loop。`|`・`)`・`&`・`;` か入力の終わりまで word を `argv` に足し、
word ごとに `parseredirs` する。
-/
def parseexecLoop : Nat → Cmd → List (Nat × Nat) → Nat → Except Stop (Cmd × List (Nat × Nat) × Nat)
  | 0, _, _, _ => .error .hang
  | fuel + 1, ret, argv, ps =>
    let (b, ps) := peek buf es ps ['|', ')', '&', ';']
    if b then .ok (ret, argv, ps)
    else
      let tok := gettoken buf es ps
      if tok.ret = NUL then .ok (ret, argv, tok.s)
      else if tok.ret ≠ 'a' then .error (.panic "syntax")
      else
        let argv := argv ++ [(tok.q, tok.eq)]
        if argv.length ≥ MAXARGS then .error (.panic "too many args")
        else
          match parseredirs buf es fuel ret tok.s with
          | .error e => .error e
          | .ok (ret, ps) => parseexecLoop fuel ret argv ps

mutual

/-- `parseline`。pipe の後の `&` ごとに `BACK`、`;` があれば残りの line と `LIST`。 -/
def parseline : Nat → Nat → Except Stop (Cmd × Nat)
  | 0, _ => .error .hang
  | fuel + 1, ps => do
    let (cmd, ps) ← parsepipe fuel ps
    let (cmd, ps) ← parseBacks buf es fuel cmd ps
    let (b, ps) := peek buf es ps [';']
    if b then
      let (rest, ps) ← parseline fuel (gettoken buf es ps).s
      pure (.list cmd rest, ps)
    else pure (cmd, ps)

/-- `parsepipe`。`|` があれば残りの pipe と `PIPE`。 -/
def parsepipe : Nat → Nat → Except Stop (Cmd × Nat)
  | 0, _ => .error .hang
  | fuel + 1, ps => do
    let (cmd, ps) ← parseexec fuel ps
    let (b, ps) := peek buf es ps ['|']
    if b then
      let (rest, ps) ← parsepipe fuel (gettoken buf es ps).s
      pure (.pipe cmd rest, ps)
    else pure (cmd, ps)

/-- `parseblock`。`(` line `)` の後の redirection。 -/
def parseblock : Nat → Nat → Except Stop (Cmd × Nat)
  | 0, _ => .error .hang
  | fuel + 1, ps =>
    let (b, ps) := peek buf es ps ['(']
    if !b then .error (.panic "parseblock")
    else
      match parseline fuel (gettoken buf es ps).s with
      | .error e => .error e
      | .ok (cmd, ps) =>
        let (b, ps) := peek buf es ps [')']
        if !b then .error (.panic "syntax - missing )")
        else parseredirs buf es fuel cmd (gettoken buf es ps).s

/-- `parseexec`。`(` なら block、そうでなければ redirection と word の列。 -/
def parseexec : Nat → Nat → Except Stop (Cmd × Nat)
  | 0, _ => .error .hang
  | fuel + 1, ps =>
    let (b, ps) := peek buf es ps ['(']
    if b then parseblock fuel ps
    else do
      let (ret, ps) ← parseredirs buf es fuel (.exec []) ps
      let (ret, argv, ps) ← parseexecLoop buf es fuel ret [] ps
      pure (ret.fillArgv argv, ps)

end

end parse

/-! ## `nulterminate` と `parsecmd` -/

/-- `nulterminate`。word とファイル名の終わり `eq` に NUL を書く。 -/
def nulterminate : Cmd → List Char → List Char
  | .exec argv, buf => argv.foldl (fun b w => b.set w.2 NUL) buf
  | .redir c _ efile _ _, buf => (nulterminate c buf).set efile NUL
  | .pipe l r, buf => nulterminate r (nulterminate l buf)
  | .list l r, buf => nulterminate r (nulterminate l buf)
  | .back c, buf => nulterminate c buf

/-- 位置 `q` から NUL までの C の文字列。 -/
def cstrAt (buf : List Char) (q : Nat) : List Char := (buf.drop q).takeWhile (· != NUL)

/-- 呼び出しの深さの上限。位置が一つ進むごとに、四段まで深くなれる。 -/
def shFuel (buf : List Char) : Nat := 4 * strlen buf + 5

/--
`parsecmd(s)`。line を読み、空白の後に残りがあれば panic する。`nulterminate` した buffer と
構文木を返す。
-/
def parsecmd (buf : List Char) : Except Stop (Cmd × List Char) :=
  let es := strlen buf
  match parseline buf es (shFuel buf) 0 with
  | .error e => .error e
  | .ok (cmd, s) =>
    let s := (peek buf es s []).2
    if s ≠ es then .error (.panic "syntax")
    else .ok (cmd, nulterminate cmd buf)

end Xv6.Sh

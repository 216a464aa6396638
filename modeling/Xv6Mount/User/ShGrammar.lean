import Mathlib.Logic.Function.Iterate
import Xv6Mount.User.Sh

/-!
# shell の文法

`gettoken` を繰り返して読む token の列（`lex`）と、その上の文法：

```
line ::= pipe '&'* [';' line]
pipe ::= exec ['|' pipe]
exec ::= '(' line ')' redir* | redir* (word redir*)*     -- word は MAXARGS 個未満
redir ::= ('<' | '>' | '>>') word
```

導出は `Derives n ts rest c` で、token の列 `ts` の `rest` の手前の部分が非終端記号 `n` から導かれ、
その導出の木が `c` であることを言う。木は `LIST` と `PIPE` が右に入れ子になり、`&` ごとに `BACK` が
包み、redirection は並んだ順に内側から `EXEC` を包む。`>>` の token の種類は `gettoken` と同じく `'+'`。
-/

namespace Xv6.Sh

/-! ## token の列 -/

/-- token：`gettoken` が返す種類と、buffer の中の始めと終わり。 -/
structure Token where
  ret : Char
  q : Nat
  eq : Nat
  deriving DecidableEq, Repr

/-- `gettoken` の読んだ token。 -/
def Gettoken.token (t : Gettoken) : Token := ⟨t.ret, t.q, t.eq⟩

/-- word の token が指す buffer の範囲。 -/
def Token.span (t : Token) : Nat × Nat := (t.q, t.eq)

/-- 位置 `ps` から `gettoken` を繰り返して読む、入力の終わりまでの token の列。 -/
def lex (buf : List Char) (es ps : Nat) : List Token :=
  if h : ps < es ∧ (gettoken buf es ps).ret ≠ NUL then
    (gettoken buf es ps).token :: lex buf es (gettoken buf es ps).s
  else []
termination_by es - ps
decreasing_by exact Nat.sub_lt_sub_left h.1 (lt_gettoken_s h.1 h.2)

/-- 入力全体の token の列。 -/
def tokens (buf : List Char) : List Token := lex buf (strlen buf) 0

/-- redirection の演算子の種類：`<`、`>`、`>>`。 -/
def redirOps : List Char := ['<', '>', '+']

/-- 残りの token の列の先頭の種類が `toks` にあるか。 -/
def headIn (toks : List Char) : List Token → Bool
  | [] => false
  | t :: _ => decide (t.ret ∈ toks)

/-- 残りの token の列が空か、先頭の種類が `toks` にある：greedy な loop がそこで止まる。 -/
def StopsAt (toks : List Char) (rest : List Token) : Prop := rest = [] ∨ headIn toks rest = true

@[simp] theorem headIn_nil (toks : List Char) : headIn toks [] = false := rfl

@[simp] theorem headIn_cons (toks : List Char) (t : Token) (l : List Token) :
    headIn toks (t :: l) = decide (t.ret ∈ toks) := rfl

theorem headIn_eq_true {toks : List Char} {l : List Token} :
    headIn toks l = true ↔ ∃ t rest, l = t :: rest ∧ t.ret ∈ toks := by
  cases l with
  | nil => simp [headIn]
  | cons t rest => simp [headIn]

theorem StopsAt.headIn_eq_false {toks toks' : List Char} {rest : List Token} (h : StopsAt toks rest)
    (hd : ∀ c ∈ toks, c ∉ toks') : headIn toks' rest = false := by
  rcases h with rfl | h
  · rfl
  · obtain ⟨t, r, rfl, hm⟩ := headIn_eq_true.mp h
    simpa [headIn] using hd _ hm

theorem StopsAt.mono {toks toks' : List Char} {rest : List Token} (h : StopsAt toks rest)
    (hsub : ∀ c ∈ toks, c ∈ toks') : StopsAt toks' rest := by
  rcases h with rfl | h
  · exact .inl rfl
  · obtain ⟨t, r, rfl, hm⟩ := headIn_eq_true.mp h
    exact .inr (headIn_eq_true.mpr ⟨t, r, rfl, hsub _ hm⟩)

/-- buffer の `[w.1, w.2)` が空でない word で、`w.2` の文字は word の文字でない。 -/
structure WordAt (buf : List Char) (w : Nat × Nat) : Prop where
  lt : w.1 < w.2
  word : ∀ i, w.1 ≤ i → i < w.2 → isWordChar (charAt buf i) = true
  stop : isWordChar (charAt buf w.2) = false

/-- 残りの先頭の token は、入力の終わりの印ではない。 -/
theorem ret_ne_nul_of_lex_cons {buf : List Char} {es ps : Nat} {t : Token} {rest : List Token}
    (h : lex buf es ps = t :: rest) : (gettoken buf es ps).ret ≠ NUL := by
  intro hn
  rw [lex, dif_neg (fun h' => h'.2 hn)] at h
  exact List.cons_ne_nil _ _ h.symm

section lex

variable {buf : List Char} {es : Nat} (ht : Terminated buf es)
include ht

theorem lex_of_end {ps : Nat} (h : skipWs buf es ps = es) : lex buf es ps = [] := by
  rw [lex, dif_neg]
  rintro ⟨-, hr⟩
  exact hr (gettoken_of_end ht h).1

theorem lex_of_lt {ps : Nat} (h : skipWs buf es ps < es) :
    lex buf es ps = (gettoken buf es ps).token :: lex buf es (gettoken buf es ps).s := by
  rw [lex, dif_pos ⟨Nat.lt_of_le_of_lt (le_skipWs ps) h, (gettoken_of_lt ht h).1⟩]

/-- 空白を飛ばしても、残りの token の列は変わらない。 -/
@[simp] theorem lex_skipWs {ps : Nat} (hps : ps ≤ es) :
    lex buf es (skipWs buf es ps) = lex buf es ps := by
  rcases Nat.lt_or_eq_of_le (skipWs_le hps : skipWs buf es ps ≤ es) with hlt | heq
  · have hlt' : skipWs buf es (skipWs buf es ps) < es := by rwa [skipWs_skipWs]
    rw [lex_of_lt ht hlt, lex_of_lt ht hlt', gettoken_skipWs]
  · have heq' : skipWs buf es (skipWs buf es ps) = es := by rwa [skipWs_skipWs]
    rw [lex_of_end ht heq, lex_of_end ht heq']

/-- 残りの先頭が `t` なら、`gettoken` は `t` を読み、その後の残りは `rest`。 -/
theorem gettoken_of_lex_cons {ps : Nat} {t : Token} {rest : List Token} (hps : ps ≤ es)
    (h : lex buf es ps = t :: rest) :
    (gettoken buf es ps).token = t ∧ lex buf es (gettoken buf es ps).s = rest ∧
      (gettoken buf es ps).s ≤ es := by
  rcases Nat.lt_or_eq_of_le (skipWs_le hps : skipWs buf es ps ≤ es) with hlt | heq
  · rw [lex_of_lt ht hlt, List.cons.injEq] at h
    obtain ⟨htok, hrest⟩ := h
    refine ⟨htok, hrest, ?_⟩
    rw [(gettoken_cases rfl).2.1]
    exact skipWs_le (gettoken_of_lt ht hlt).2.2
  · rw [lex_of_end ht heq] at h
    exact absurd h.symm (List.cons_ne_nil _ _)

/-- 残りがなければ、`gettoken` は NUL を返し、位置は `es` になる。 -/
theorem gettoken_of_lex_nil {ps : Nat} (hps : ps ≤ es) (h : lex buf es ps = []) :
    (gettoken buf es ps).ret = NUL ∧ (gettoken buf es ps).s = es := by
  rcases Nat.lt_or_eq_of_le (skipWs_le hps : skipWs buf es ps ≤ es) with hlt | heq
  · rw [lex_of_lt ht hlt] at h
    exact absurd h (List.cons_ne_nil _ _)
  · exact gettoken_of_end ht heq

theorem lex_es : lex buf es es = [] := lex_of_end ht (skipWs_of_stop (by omega))

/-- 一文字の記号を並べた `toks` の `peek` は、残りの先頭の種類を見る。 -/
theorem peek_headIn {ps : Nat} {toks : List Char} (hps : ps ≤ es)
    (htoks : ∀ c ∈ toks, c ∈ ['|', '(', ')', ';', '&', '<']) :
    (peek buf es ps toks).1 = headIn toks (lex buf es ps) := by
  rw [peek_eq_mem htoks]
  cases hl : lex buf es ps with
  | nil =>
    rw [(gettoken_of_lex_nil ht hps hl).1]
    simp only [headIn, decide_eq_false_iff_not]
    intro hm
    exact absurd (htoks _ hm) (by decide)
  | cons t rest =>
    rw [← (gettoken_of_lex_cons ht hps hl).1]
    rfl

/-- `peek(ps, es, "<>")` は、残りの先頭が redirection の演算子かを見る。 -/
theorem peek_redir_headIn {ps : Nat} (hps : ps ≤ es) :
    (peek buf es ps ['<', '>']).1 = headIn redirOps (lex buf es ps) := by
  rw [peek_redir]
  cases hl : lex buf es ps with
  | nil =>
    rw [(gettoken_of_lex_nil ht hps hl).1]
    decide
  | cons t rest =>
    rw [← (gettoken_of_lex_cons ht hps hl).1]
    rfl

/-- token は一つごとに少なくとも一文字を使う。 -/
theorem lex_length_le {ps : Nat} (hps : ps ≤ es) : (lex buf es ps).length ≤ es - ps := by
  fun_induction lex buf es ps with
  | case1 ps h ih =>
    have hlt := lt_gettoken_s h.1 h.2
    obtain ⟨-, -, hs⟩ := gettoken_of_lex_cons ht hps (lex_of_lt ht
      (Nat.lt_of_le_of_ne (skipWs_le hps) fun he => h.2 (gettoken_of_end ht he).1))
    have := ih hs
    simp only [List.length_cons]
    omega
  | case2 ps h => simp

/-- word の token は空でない word の文字の列で、その直後は word の文字でない。 -/
theorem lex_word {ps : Nat} (hps : ps ≤ es) {t : Token} (hmem : t ∈ lex buf es ps)
    (hw : t.ret = 'a') : WordAt buf t.span := by
  fun_induction lex buf es ps with
  | case1 ps h ih =>
    have hlt : skipWs buf es ps < es :=
      Nat.lt_of_le_of_ne (skipWs_le hps) fun he => h.2 (gettoken_of_end ht he).1
    rcases List.mem_cons.mp hmem with rfl | htail
    · obtain ⟨hword, hstop⟩ := gettoken_word ht hps hw
      exact ⟨(gettoken_of_lt ht hlt).2.1, hword, hstop⟩
    · exact ih (gettoken_of_lex_cons ht hps (lex_of_lt ht hlt)).2.2 htail
  | case2 ps h => exact absurd hmem List.not_mem_nil

/-- `lex buf es ps = [] ↔ skipWs buf es ps = es`：残りがないのは、空白の後が入力の終わりのとき。 -/
theorem lex_eq_nil_iff {ps : Nat} (hps : ps ≤ es) : lex buf es ps = [] ↔ skipWs buf es ps = es := by
  constructor
  · intro h
    rcases Nat.lt_or_eq_of_le (skipWs_le hps : skipWs buf es ps ≤ es) with hlt | heq
    · rw [lex_of_lt ht hlt] at h
      exact absurd h (List.cons_ne_nil _ _)
    · exact heq
  · exact lex_of_end ht

end lex

/-! ## 導出の木 -/

/-- redirection の節：`<` は fd 0 に読み、`>` と `>>` は fd 1 に書く。 -/
def redirect (op file : Token) (c : Cmd) : Cmd :=
  if op.ret = '<' then .redir c file.q file.eq O_RDONLY 0
  else .redir c file.q file.eq (O_WRONLY ||| O_CREATE) 1

/-- redirection の列 `(演算子, ファイル名)` を、並んだ順に内側から包む。 -/
def wrap (c : Cmd) (rds : List (Token × Token)) : Cmd := rds.foldl (fun c r => redirect r.1 r.2 c) c

@[simp] theorem wrap_nil (c : Cmd) : wrap c [] = c := rfl

@[simp] theorem wrap_cons (c : Cmd) (op file : Token) (rds : List (Token × Token)) :
    wrap c ((op, file) :: rds) = wrap (redirect op file c) rds := rfl

theorem wrap_append (c : Cmd) (rds rds' : List (Token × Token)) :
    wrap c (rds ++ rds') = wrap (wrap c rds) rds' := by
  simp [wrap, List.foldl_append]

/-- `argv` は一番内側の `EXEC` に入る。 -/
theorem fillArgv_wrap (c : Cmd) (rds : List (Token × Token)) (argv : List (Nat × Nat)) :
    (wrap c rds).fillArgv argv = wrap (c.fillArgv argv) rds := by
  induction rds generalizing c with
  | nil => rfl
  | cons r rds ih =>
    obtain ⟨op, file⟩ := r
    rw [wrap_cons, ih, wrap_cons]
    congr 1
    unfold redirect
    split_ifs <;> rfl

/-! ## 文法 -/

/-- `'&'*`：`k` 個の `&`。 -/
inductive Amps : Nat → List Token → List Token → Prop
  | nil (ts : List Token) : Amps 0 ts ts
  | cons {a : Token} {k : Nat} {ts rest : List Token} :
      a.ret = '&' → Amps k ts rest → Amps (k + 1) (a :: ts) rest

/-- `redir*`：redirection の列 `rds`。 -/
inductive Redirs : List Token → List Token → List (Token × Token) → Prop
  | nil (ts : List Token) : Redirs ts ts []
  | cons {op file : Token} {ts rest : List Token} {rds : List (Token × Token)} :
      op.ret ∈ redirOps → file.ret = 'a' → Redirs ts rest rds →
      Redirs (op :: file :: ts) rest ((op, file) :: rds)

/-- `(word redir*)*`：word の列 `ws` と、その後ろに並ぶ redirection の列 `rds`。 -/
inductive Words : List Token → List Token → List Token → List (Token × Token) → Prop
  | nil (ts : List Token) : Words ts ts [] []
  | cons {w : Token} {ts mid rest ws : List Token} {rds rds' : List (Token × Token)} :
      w.ret = 'a' → Redirs ts mid rds → Words mid rest ws rds' →
      Words (w :: ts) rest (w :: ws) (rds ++ rds')

/-- 文法の非終端記号。 -/
inductive NT where
  | line
  | pipe
  | exec
  deriving DecidableEq, Repr

/-- `Derives n ts rest c`：`ts` の `rest` の手前が `n` から導かれ、その木が `c`。 -/
inductive Derives : NT → List Token → List Token → Cmd → Prop
  /-- `line ::= pipe '&'*` -/
  | backs {ts mid rest : List Token} {c : Cmd} {k : Nat} :
      Derives .pipe ts mid c → Amps k mid rest → Derives .line ts rest (Cmd.back^[k] c)
  /-- `line ::= pipe '&'* ';' line` -/
  | list {ts mid mid' rest : List Token} {semi : Token} {c c' : Cmd} {k : Nat} :
      Derives .pipe ts mid c → Amps k mid (semi :: mid') → semi.ret = ';' →
      Derives .line mid' rest c' → Derives .line ts rest (.list (Cmd.back^[k] c) c')
  /-- `pipe ::= exec` -/
  | single {ts rest : List Token} {c : Cmd} : Derives .exec ts rest c → Derives .pipe ts rest c
  /-- `pipe ::= exec '|' pipe` -/
  | pipe {ts mid rest : List Token} {bar : Token} {c c' : Cmd} :
      Derives .exec ts (bar :: mid) c → bar.ret = '|' → Derives .pipe mid rest c' →
      Derives .pipe ts rest (.pipe c c')
  /-- `exec ::= '(' line ')' redir*` -/
  | block {lp rp : Token} {ts mid rest : List Token} {c : Cmd} {rds : List (Token × Token)} :
      lp.ret = '(' → Derives .line ts (rp :: mid) c → rp.ret = ')' → Redirs mid rest rds →
      Derives .exec (lp :: ts) rest (wrap c rds)
  /-- `exec ::= redir* (word redir*)*`。word は `MAXARGS` 個未満。 -/
  | simple {ts mid rest ws : List Token} {rds rds' : List (Token × Token)} :
      Redirs ts mid rds → Words mid rest ws rds' → ws.length < MAXARGS →
      Derives .exec ts rest (wrap (.exec (ws.map Token.span)) (rds ++ rds'))

/-! ## 導出の長さと先頭 -/

theorem Amps.length_eq {k : Nat} {ts rest : List Token} (h : Amps k ts rest) :
    ts.length = rest.length + k := by
  induction h with
  | nil => rfl
  | cons _ _ ih => simp [ih]; omega

theorem Redirs.length_eq {ts rest : List Token} {rds : List (Token × Token)} (h : Redirs ts rest rds) :
    ts.length = rest.length + 2 * rds.length := by
  induction h with
  | nil => rfl
  | cons _ _ _ ih => simp [ih]; omega

theorem Words.length_eq {ts rest ws : List Token} {rds : List (Token × Token)}
    (h : Words ts rest ws rds) : ts.length = rest.length + ws.length + 2 * rds.length := by
  induction h with
  | nil => simp
  | cons _ hr _ ih => simp [hr.length_eq, ih]; omega

theorem Amps.suffix {k : Nat} {ts rest : List Token} (h : Amps k ts rest) : rest <:+ ts := by
  induction h with
  | nil ts => exact List.suffix_refl ts
  | cons _ _ ih => exact ih.trans (List.suffix_cons _ _)

theorem Redirs.suffix {ts rest : List Token} {rds : List (Token × Token)} (h : Redirs ts rest rds) :
    rest <:+ ts := by
  induction h with
  | nil ts => exact List.suffix_refl ts
  | cons _ _ _ ih => exact ih.trans ((List.suffix_cons _ _).trans (List.suffix_cons _ _))

theorem Words.suffix {ts rest ws : List Token} {rds : List (Token × Token)}
    (h : Words ts rest ws rds) : rest <:+ ts := by
  induction h with
  | nil ts => exact List.suffix_refl ts
  | cons _ hr _ ih => exact ih.trans (hr.suffix.trans (List.suffix_cons _ _))

/-- 導出の残りは、導出した列の後ろの部分。 -/
theorem Derives.suffix {n : NT} {ts rest : List Token} {c : Cmd} (h : Derives n ts rest c) :
    rest <:+ ts := by
  induction h with
  | backs _ ha ih => exact ha.suffix.trans ih
  | list _ ha _ _ ih ih' => exact ih'.trans ((List.suffix_cons _ _).trans (ha.suffix.trans ih))
  | single _ ih => exact ih
  | pipe _ _ _ ih ih' => exact ih'.trans ((List.suffix_cons _ _).trans ih)
  | block _ _ _ hr ih =>
    exact hr.suffix.trans ((List.suffix_cons _ _).trans (ih.trans (List.suffix_cons _ _)))
  | simple hr hw _ => exact hw.suffix.trans hr.suffix

theorem Derives.length_le {n : NT} {ts rest : List Token} {c : Cmd} (h : Derives n ts rest c) :
    rest.length ≤ ts.length := h.suffix.length_le

/-- redirection の列は、演算子か、その後ろの先頭で始まる。 -/
theorem Redirs.headIn_eq_false {toks : List Char} {ts mid : List Token} {rds : List (Token × Token)}
    (h : Redirs ts mid rds) (hm : headIn toks mid = false) (hop : ∀ c ∈ redirOps, c ∉ toks) :
    headIn toks ts = false := by
  cases h with
  | nil => exact hm
  | cons hr _ _ => simpa [headIn] using hop _ hr

/-- word の列は、word か、その後ろの先頭で始まる。 -/
theorem Words.headIn_eq_false {toks : List Char} {ts rest ws : List Token}
    {rds : List (Token × Token)} (h : Words ts rest ws rds) (hm : headIn toks rest = false)
    (ha : 'a' ∉ toks) : headIn toks ts = false := by
  cases h with
  | nil => exact hm
  | cons hw _ _ => simpa [headIn, hw] using ha

/-! ## 木の中の word

`nulterminate` が NUL を書くのは、木の中の word とファイル名の終わりである（`Cmd.spans`）。
導出の木のそれらは、どれも導出した列の word の token の範囲である。
-/

/-- 木の中の word とファイル名の範囲。`nulterminate` が NUL を書く順に並ぶ。 -/
def Cmd.spans : Cmd → List (Nat × Nat)
  | .exec argv => argv
  | .redir c file efile _ _ => c.spans ++ [(file, efile)]
  | .pipe l r => l.spans ++ r.spans
  | .list l r => l.spans ++ r.spans
  | .back c => c.spans

theorem spans_redirect (op file : Token) (c : Cmd) :
    (redirect op file c).spans = c.spans ++ [file.span] := by
  unfold redirect
  split_ifs <;> rfl

theorem spans_wrap (c : Cmd) (rds : List (Token × Token)) :
    (wrap c rds).spans = c.spans ++ rds.map (fun r => r.2.span) := by
  induction rds generalizing c with
  | nil => simp
  | cons r rds ih =>
    obtain ⟨op, file⟩ := r
    rw [wrap_cons, ih, spans_redirect]
    simp

theorem spans_back_iterate (k : Nat) (c : Cmd) : (Cmd.back^[k] c).spans = c.spans := by
  induction k generalizing c with
  | zero => rfl
  | succ k ih => rw [Function.iterate_succ_apply, ih]; rfl

/-- word の token の範囲であること。 -/
def IsWordOf (ts : List Token) (w : Nat × Nat) : Prop := ∃ t ∈ ts, t.ret = 'a' ∧ t.span = w

theorem IsWordOf.mono {ts ts' : List Token} {w : Nat × Nat} (h : IsWordOf ts w) (hs : ts ⊆ ts') :
    IsWordOf ts' w := by
  obtain ⟨t, ht, hr, hw⟩ := h
  exact ⟨t, hs ht, hr, hw⟩

theorem Redirs.files {ts rest : List Token} {rds : List (Token × Token)} (h : Redirs ts rest rds) :
    ∀ r ∈ rds, IsWordOf ts r.2.span := by
  induction h with
  | nil => simp
  | @cons op file ts rest rds _ hfile _ ih =>
    intro r hr
    rcases List.mem_cons.mp hr with rfl | hr
    · exact ⟨file, by simp, hfile, rfl⟩
    · exact (ih r hr).mono fun t ht => by simp [ht]

theorem Words.spans {ts rest ws : List Token} {rds : List (Token × Token)}
    (h : Words ts rest ws rds) :
    (∀ w ∈ ws, IsWordOf ts w.span) ∧ ∀ r ∈ rds, IsWordOf ts r.2.span := by
  induction h with
  | nil => simp
  | @cons w ts mid rest ws rds rds' hw hr _ ih =>
    have hmid : mid ⊆ w :: ts := (hr.suffix.trans (List.suffix_cons _ _)).subset
    refine ⟨fun w' hw' => ?_, fun r hr' => ?_⟩
    · rcases List.mem_cons.mp hw' with rfl | hw'
      · exact ⟨w', by simp, hw, rfl⟩
      · exact (ih.1 w' hw').mono hmid
    · rcases List.mem_append.mp hr' with hr' | hr'
      · exact (hr.files r hr').mono fun t ht => by simp [ht]
      · exact (ih.2 r hr').mono hmid

/-- 導出の木の word とファイル名は、どれも導出した列の word の token の範囲。 -/
theorem Derives.spans {n : NT} {ts rest : List Token} {c : Cmd} (h : Derives n ts rest c) :
    ∀ w ∈ c.spans, IsWordOf ts w := by
  induction h with
  | backs _ _ ih =>
    intro w hw
    rw [spans_back_iterate] at hw
    exact ih w hw
  | @list ts mid mid' rest semi c c' k hp ha _ _ ih ih' =>
    intro w hw
    rw [Cmd.spans, spans_back_iterate] at hw
    rcases List.mem_append.mp hw with hw | hw
    · exact ih w hw
    · exact (ih' w hw).mono ((List.suffix_cons _ _).trans (ha.suffix.trans hp.suffix)).subset
  | single _ ih => exact ih
  | @pipe ts mid rest bar c c' he _ _ ih ih' =>
    intro w hw
    rcases List.mem_append.mp hw with hw | hw
    · exact ih w hw
    · exact (ih' w hw).mono ((List.suffix_cons _ _).trans he.suffix).subset
  | @block lp rp ts mid rest c rds _ hline _ hr ih =>
    intro w hw
    rw [spans_wrap] at hw
    rcases List.mem_append.mp hw with hw | hw
    · exact (ih w hw).mono fun t ht => by simp [ht]
    · obtain ⟨r, hr', rfl⟩ := List.mem_map.mp hw
      exact (hr.files r hr').mono
        ((List.suffix_cons _ _).trans (hline.suffix.trans (List.suffix_cons _ _))).subset
  | @simple ts mid rest ws rds rds' hr hws _ =>
    intro w hw
    rw [spans_wrap, Cmd.spans] at hw
    have hmid : mid ⊆ ts := hr.suffix.subset
    rcases List.mem_append.mp hw with hw | hw
    · obtain ⟨w', hw', rfl⟩ := List.mem_map.mp hw
      exact (hws.spans.1 w' hw').mono hmid
    · obtain ⟨r, hr', rfl⟩ := List.mem_map.mp hw
      rcases List.mem_append.mp hr' with hr' | hr'
      · exact hr.files r hr'
      · exact (hws.spans.2 r hr').mono hmid

end Xv6.Sh

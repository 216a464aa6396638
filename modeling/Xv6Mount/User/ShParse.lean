import Xv6Mount.Infra.Buffer
import Xv6Mount.User.ShGrammar

/-!
# shell の構文解析の正しさ

`parsecmd` は止まり、panic せずに戻るのは入力の token の列が `line` から導かれるときに限り、
返す木はその導出の木である。`nulterminate` の後、木の中の word とファイル名は、それぞれの token の
文字列になる。

* `parseline_total` など — 十分な fuel を与えた構文解析は、panic で止まるか、読んだ token の導出を
  返す（健全性と停止性）。fuel は呼び出しの深さで、残りの token 一つごとに四段あれば足りる
* `parse_complete` — 導出のある token の列は、十分な fuel で panic せずにその木を返す（完全性）
* `cstrAt_nulterminate` — `nulterminate` の後の word の文字列

構文解析の関数は位置 `ps` を受け渡すが、証明は残りの token の列 `lex buf es ps` で述べる。
`peek` は残りの先頭の種類を見て（`peek_headIn`）、`gettoken` は先頭を一つ取る
（`gettoken_of_lex_cons`）。
-/

namespace Xv6.Sh

open Infra

theorem peek_eq {buf : List Char} {es : Nat} (ps : Nat) (toks : List Char) :
    peek buf es ps toks = ((peek buf es ps toks).1, skipWs buf es ps) := rfl

/-- `parseredirs` の `switch(tok)`：redirection の演算子なら、`redirect` の節で包む。 -/
theorem redir_chain_eq {tok file : Gettoken} (c : Cmd) (hop : tok.ret ∈ redirOps) :
    (if tok.ret = '<' then Cmd.redir c file.q file.eq O_RDONLY 0
      else if tok.ret = '>' then Cmd.redir c file.q file.eq (O_WRONLY ||| O_CREATE) 1
      else if tok.ret = '+' then Cmd.redir c file.q file.eq (O_WRONLY ||| O_CREATE) 1
      else c) = redirect tok.token file.token c := by
  simp only [redirOps, List.mem_cons, List.not_mem_nil, or_false] at hop
  unfold redirect Gettoken.token
  rcases hop with h | h | h <;> simp [h]

section total

variable {buf : List Char} {es : Nat} (ht : Terminated buf es)
include ht

/-- `&` の loop は、残りの token より多い fuel があれば `&` の列を読み切る。 -/
theorem parseBacks_total {fuel : Nat} {c : Cmd} {ps : Nat} (hps : ps ≤ es)
    (hf : (lex buf es ps).length < fuel) :
    PanicOr (fun r : Cmd × Nat => r.2 ≤ es ∧
        ∃ k, Amps k (lex buf es ps) (lex buf es r.2) ∧ r.1 = Cmd.back^[k] c)
      (parseBacks buf es fuel c ps) := by
  induction fuel generalizing c ps with
  | zero => omega
  | succ f ih =>
    rw [parseBacks, peek_eq, peek_headIn ht hps (by simp)]
    dsimp only
    rw [gettoken_skipWs]
    cases hb : headIn ['&'] (lex buf es ps) with
    | false =>
      rw [if_neg Bool.false_ne_true]
      exact panicOr_ok.mpr ⟨skipWs_le hps, 0, by rw [lex_skipWs ht hps]; exact .nil _, rfl⟩
    | true =>
      rw [if_pos rfl]
      obtain ⟨a, rest, hl, ha⟩ := headIn_eq_true.mp hb
      obtain ⟨-, hrest, hs⟩ := gettoken_of_lex_cons ht hps hl
      have hf' : (lex buf es (gettoken buf es ps).s).length < f := by
        rw [hrest]
        rw [hl, List.length_cons] at hf
        omega
      refine (ih hs hf').mono ?_
      rintro ⟨c', ps'⟩ ⟨hps', k, hk, rfl⟩
      refine ⟨hps', k + 1, ?_, ?_⟩
      · rw [hl]
        exact .cons (by simpa using ha) (hrest ▸ hk)
      · exact (Function.iterate_succ_apply Cmd.back k c).symm

/--
redirection の loop は、残りの token より多い fuel があれば redirection の列を読み切るか、
ファイル名のない redirection で panic する。
-/
theorem parseredirs_total {fuel : Nat} {c : Cmd} {ps : Nat} (hps : ps ≤ es)
    (hf : (lex buf es ps).length < fuel) :
    PanicOr (fun r : Cmd × Nat => r.2 ≤ es ∧
        ∃ rds, Redirs (lex buf es ps) (lex buf es r.2) rds ∧ r.1 = wrap c rds)
      (parseredirs buf es fuel c ps) := by
  induction fuel generalizing c ps with
  | zero => omega
  | succ f ih =>
    rw [parseredirs, peek_eq, peek_redir_headIn ht hps]
    dsimp only
    rw [gettoken_skipWs]
    cases hb : headIn redirOps (lex buf es ps) with
    | false =>
      rw [if_neg Bool.false_ne_true]
      exact panicOr_ok.mpr ⟨skipWs_le hps, [], by rw [lex_skipWs ht hps]; exact .nil _, rfl⟩
    | true =>
      rw [if_pos rfl]
      obtain ⟨op, rest, hl, hop⟩ := headIn_eq_true.mp hb
      obtain ⟨htok, hrest, hs⟩ := gettoken_of_lex_cons ht hps hl
      by_cases hfa : (gettoken buf es (gettoken buf es ps).s).ret = 'a'
      · rw [if_neg (not_not.mpr hfa)]
        -- ファイル名は word の token で、残りの二つ目にある
        cases hr : rest with
        | nil =>
          rw [(gettoken_of_lex_nil ht hs (hrest.trans hr)).1] at hfa
          exact absurd hfa (by decide)
        | cons file rest' =>
          obtain ⟨hftok, hrest', hs'⟩ := gettoken_of_lex_cons ht hs (hrest.trans hr)
          have hop' : (gettoken buf es ps).ret ∈ redirOps := by
            rw [← htok] at hop
            exact hop
          rw [redir_chain_eq c hop', htok, hftok]
          have hf' : (lex buf es (gettoken buf es (gettoken buf es ps).s).s).length < f := by
            rw [hl, hr, List.length_cons, List.length_cons] at hf
            rw [hrest']
            omega
          refine (ih hs' hf').mono ?_
          rintro ⟨c', ps'⟩ ⟨hps', rds, hrds, rfl⟩
          refine ⟨hps', (op, file) :: rds, ?_, rfl⟩
          rw [hl, hr]
          exact .cons hop (hftok ▸ hfa) (hrest' ▸ hrds)
      · rw [if_pos hfa]
        exact panicOr_panic _

/--
word の loop は、残りの token より多い fuel があれば `|`・`)`・`&`・`;` か入力の終わりまで読むか、
panic する。読んだのは `(word redir*)*` で、word は `argv` に足される。
-/
theorem parseexecLoop_total {fuel : Nat} {ret : Cmd} {argv : List (Nat × Nat)} {ps : Nat}
    (hps : ps ≤ es) (hargv : argv.length < MAXARGS) (hf : (lex buf es ps).length < fuel) :
    PanicOr (fun r : Cmd × List (Nat × Nat) × Nat => r.2.2 ≤ es ∧ r.2.1.length < MAXARGS ∧
        ∃ ws rds, Words (lex buf es ps) (lex buf es r.2.2) ws rds ∧ r.1 = wrap ret rds ∧
          r.2.1 = argv ++ ws.map Token.span)
      (parseexecLoop buf es fuel ret argv ps) := by
  induction fuel generalizing ret argv ps with
  | zero => omega
  | succ f ih =>
    rw [parseexecLoop, peek_eq, peek_headIn ht hps (by simp)]
    dsimp only
    rw [gettoken_skipWs]
    cases hb : headIn ['|', ')', '&', ';'] (lex buf es ps) with
    | true =>
      rw [if_pos rfl]
      refine panicOr_ok.mpr ⟨skipWs_le hps, hargv, [], [], ?_, rfl, by simp⟩
      rw [lex_skipWs ht hps]
      exact .nil _
    | false =>
      rw [if_neg Bool.false_ne_true]
      cases hl : lex buf es ps with
      | nil =>
        -- 入力の終わり：`gettoken` は NUL を返し、loop を抜ける
        obtain ⟨hn, hs⟩ := gettoken_of_lex_nil ht hps hl
        rw [if_pos hn]
        refine panicOr_ok.mpr ⟨Nat.le_of_eq hs, hargv, [], [], ?_, rfl, by simp⟩
        rw [hs, lex_es ht]
        exact .nil _
      | cons w rest =>
        obtain ⟨htok, hrest, hs⟩ := gettoken_of_lex_cons ht hps hl
        have hret : (gettoken buf es ps).ret = w.ret := congrArg Token.ret htok
        rw [if_neg (ret_ne_nul_of_lex_cons hl)]
        by_cases hw : w.ret = 'a'
        · rw [if_neg (by rw [hret]; exact not_not.mpr hw)]
          by_cases hmax : (argv ++ [((gettoken buf es ps).q, (gettoken buf es ps).eq)]).length ≥ MAXARGS
          · rw [if_pos hmax]
            exact panicOr_panic _
          · rw [if_neg hmax]
            rw [hl, List.length_cons] at hf
            have hlen : (lex buf es (gettoken buf es ps).s).length < f := by
              rw [hrest]
              omega
            have hr := parseredirs_total ht (c := ret) hs hlen
            rcases hr.ok_or_panic with ⟨⟨r₁, p₁⟩, he, hp₁, rds, hrds, rfl⟩ | ⟨msg, he⟩
            · dsimp only at hp₁ hrds
              rw [he]
              dsimp only
              have hf' : (lex buf es p₁).length < f := by
                have := hrds.length_eq
                rw [hrest] at this
                omega
              refine (ih hp₁ (Nat.lt_of_not_le hmax) hf').mono ?_
              rintro ⟨r', argv', ps'⟩ ⟨hps', hlen, ws, rds', hws, rfl, rfl⟩
              refine ⟨hps', hlen, w :: ws, rds ++ rds', ?_, (wrap_append _ _ _).symm, ?_⟩
              · exact .cons hw (hrest ▸ hrds) hws
              · simp [Token.span, ← htok, Gettoken.token]
            · rw [he]
              exact panicOr_panic msg
        · rw [if_pos (by rw [hret]; exact hw)]
          exact panicOr_panic _

/-! ### `line`・`pipe`・`exec`・`block`

呼び出しの深さは、`parseline` から `parsepipe`・`parseexec`・`parseblock` を経て次の `parseline` まで
四段で、その間に `(` を一つ読む。残りの token が `ℓ` 個なら `4ℓ + 5` 段で足りる。
-/

mutual

/-- `parseline` は、十分な fuel で panic するか `line` の導出を返す。 -/
theorem parseline_total {fuel ps : Nat} (hps : ps ≤ es)
    (hf : 4 * (lex buf es ps).length + 5 ≤ fuel) :
    PanicOr (fun r : Cmd × Nat => r.2 ≤ es ∧ Derives .line (lex buf es ps) (lex buf es r.2) r.1)
      (parseline buf es fuel ps) := by
  cases fuel with
  | zero => omega
  | succ f =>
    rw [parseline]
    refine (parsepipe_total hps (by omega)).bind ?_
    rintro ⟨c₁, p₁⟩ ⟨hp₁, hd₁⟩
    dsimp only
    have hl₁ := hd₁.length_le
    refine (parseBacks_total ht (c := c₁) hp₁ (by omega)).bind ?_
    rintro ⟨c₂, p₂⟩ ⟨hp₂, k, hk, rfl⟩
    dsimp only
    rw [peek_eq, peek_headIn ht hp₂ (by simp)]
    dsimp only
    rw [gettoken_skipWs]
    cases hb : headIn [';'] (lex buf es p₂) with
    | false =>
      rw [if_neg Bool.false_ne_true]
      refine panicOr_ok.mpr ⟨skipWs_le hp₂, ?_⟩
      rw [lex_skipWs ht hp₂]
      exact .backs hd₁ hk
    | true =>
      rw [if_pos rfl]
      -- `;` の後の line
      obtain ⟨semi, rest, hl, hsemi⟩ := headIn_eq_true.mp hb
      obtain ⟨-, hrest, hs⟩ := gettoken_of_lex_cons ht hp₂ hl
      have hk' := hk.length_eq
      rw [hl, List.length_cons] at hk'
      refine (parseline_total hs (by rw [hrest]; omega)).bind ?_
      rintro ⟨c₃, p₃⟩ ⟨hp₃, hd₃⟩
      refine panicOr_ok.mpr ⟨hp₃, ?_⟩
      rw [hrest] at hd₃
      exact .list hd₁ (hl ▸ hk) (by simpa using hsemi) hd₃
termination_by fuel

/-- `parsepipe` は、十分な fuel で panic するか `pipe` の導出を返す。 -/
theorem parsepipe_total {fuel ps : Nat} (hps : ps ≤ es)
    (hf : 4 * (lex buf es ps).length + 4 ≤ fuel) :
    PanicOr (fun r : Cmd × Nat => r.2 ≤ es ∧ Derives .pipe (lex buf es ps) (lex buf es r.2) r.1)
      (parsepipe buf es fuel ps) := by
  cases fuel with
  | zero => omega
  | succ f =>
    rw [parsepipe]
    refine (parseexec_total hps (by omega)).bind ?_
    rintro ⟨c₁, p₁⟩ ⟨hp₁, hd₁⟩
    dsimp only
    rw [peek_eq, peek_headIn ht hp₁ (by simp)]
    dsimp only
    rw [gettoken_skipWs]
    cases hb : headIn ['|'] (lex buf es p₁) with
    | false =>
      rw [if_neg Bool.false_ne_true]
      refine panicOr_ok.mpr ⟨skipWs_le hp₁, ?_⟩
      rw [lex_skipWs ht hp₁]
      exact .single hd₁
    | true =>
      rw [if_pos rfl]
      -- `|` の後の pipe
      obtain ⟨bar, rest, hl, hbar⟩ := headIn_eq_true.mp hb
      obtain ⟨-, hrest, hs⟩ := gettoken_of_lex_cons ht hp₁ hl
      have hl₁ := hd₁.length_le
      rw [hl, List.length_cons] at hl₁
      refine (parsepipe_total hs (by rw [hrest]; omega)).bind ?_
      rintro ⟨c₂, p₂⟩ ⟨hp₂, hd₂⟩
      refine panicOr_ok.mpr ⟨hp₂, ?_⟩
      rw [hrest] at hd₂
      exact .pipe (hl ▸ hd₁) (by simpa using hbar) hd₂
termination_by fuel

/-- `parseexec` は、十分な fuel で panic するか `exec` の導出を返す。 -/
theorem parseexec_total {fuel ps : Nat} (hps : ps ≤ es)
    (hf : 4 * (lex buf es ps).length + 3 ≤ fuel) :
    PanicOr (fun r : Cmd × Nat => r.2 ≤ es ∧ Derives .exec (lex buf es ps) (lex buf es r.2) r.1)
      (parseexec buf es fuel ps) := by
  cases fuel with
  | zero => omega
  | succ f =>
    rw [parseexec, peek_eq, peek_headIn ht hps (by simp)]
    dsimp only
    have hps' : skipWs buf es ps ≤ es := skipWs_le hps
    have hlex := lex_skipWs ht hps
    cases hb : headIn ['('] (lex buf es ps) with
    | true =>
      rw [if_pos rfl]
      refine (parseblock_total hps' (by rw [hlex]; omega)).mono ?_
      rintro ⟨c, p⟩ ⟨hp, hd⟩
      exact ⟨hp, hlex ▸ hd⟩
    | false =>
      rw [if_neg Bool.false_ne_true]
      -- `redir* (word redir*)*`：先頭の redirection、次に word の loop
      refine (parseredirs_total ht (c := .exec []) hps' (by rw [hlex]; omega)).bind ?_
      rintro ⟨r₁, p₁⟩ ⟨hp₁, rds, hrds, rfl⟩
      dsimp only
      have hl₁ := hrds.length_eq
      rw [hlex] at hrds hl₁
      refine (parseexecLoop_total ht hp₁ (by decide) (by omega)).bind ?_
      rintro ⟨r₂, argv, p₂⟩ ⟨hp₂, hlen, ws, rds', hws, rfl, rfl⟩
      refine panicOr_ok.mpr ⟨hp₂, ?_⟩
      dsimp only
      rw [fillArgv_wrap, fillArgv_wrap, ← wrap_append, List.nil_append]
      exact .simple hrds hws (by simpa using hlen)
termination_by fuel

/-- `parseblock` は、十分な fuel で panic するか `'(' line ')' redir*` の導出を返す。 -/
theorem parseblock_total {fuel ps : Nat} (hps : ps ≤ es)
    (hf : 4 * (lex buf es ps).length + 2 ≤ fuel) :
    PanicOr (fun r : Cmd × Nat => r.2 ≤ es ∧ Derives .exec (lex buf es ps) (lex buf es r.2) r.1)
      (parseblock buf es fuel ps) := by
  cases fuel with
  | zero => omega
  | succ f =>
    rw [parseblock, peek_eq, peek_headIn ht hps (by simp)]
    dsimp only
    rw [gettoken_skipWs]
    cases hb : headIn ['('] (lex buf es ps) with
    | false =>
      rw [Bool.not_false, if_pos rfl]
      exact panicOr_panic _
    | true =>
      rw [Bool.not_true, if_neg Bool.false_ne_true]
      obtain ⟨lp, rest, hl, hlp⟩ := headIn_eq_true.mp hb
      obtain ⟨-, hrest, hs⟩ := gettoken_of_lex_cons ht hps hl
      rw [hl, List.length_cons] at hf
      have h₁ : PanicOr _ (parseline buf es f (gettoken buf es ps).s) :=
        parseline_total hs (by rw [hrest]; omega)
      rcases h₁.ok_or_panic with ⟨⟨c₁, p₁⟩, he, hp₁, hd₁⟩ | ⟨msg, he⟩
      · rw [he]
        dsimp only at hp₁ hd₁ ⊢
        rw [peek_eq, peek_headIn ht hp₁ (by simp)]
        dsimp only
        rw [gettoken_skipWs]
        cases hb' : headIn [')'] (lex buf es p₁) with
        | false =>
          rw [Bool.not_false, if_pos rfl]
          exact panicOr_panic _
        | true =>
          rw [Bool.not_true, if_neg Bool.false_ne_true]
          -- `)` の後の redirection
          obtain ⟨rp, mid, hl', hrp⟩ := headIn_eq_true.mp hb'
          obtain ⟨-, hmid, hs'⟩ := gettoken_of_lex_cons ht hp₁ hl'
          have hl₁ := hd₁.length_le
          rw [hrest, hl', List.length_cons] at hl₁
          refine (parseredirs_total ht hs' (by rw [hmid]; omega)).mono ?_
          rintro ⟨c', ps'⟩ ⟨hps', rds, hrds, rfl⟩
          refine ⟨hps', ?_⟩
          rw [hrest, hl'] at hd₁
          rw [hl]
          exact .block (by simpa using hlp) hd₁ (by simpa using hrp) (hmid ▸ hrds)
      · rw [he]
        exact panicOr_panic msg
termination_by fuel

end

end total

/-! ## 完全性

導出のある token の列は、その後ろに来る token が構文解析を止めるなら（`NT.follow`）、十分な fuel で
panic せずにその導出の木を返す。greedy な loop は、導出の区切りと同じところで止まる。
-/

/-- 非終端記号ごとの構文解析の関数。 -/
def NT.parse (buf : List Char) (es : Nat) : NT → Nat → Nat → Except Stop (Cmd × Nat)
  | .line => parseline buf es
  | .pipe => parsepipe buf es
  | .exec => parseexec buf es

/-- 非終端記号の後に来てよい token の種類。構文解析はその手前で止まる。 -/
def NT.follow : NT → List Char
  | .line => [')']
  | .pipe => [')', '&', ';']
  | .exec => ['|', ')', '&', ';']

/-- 残りの token が `n` 個のときに足りる呼び出しの深さ。 -/
def NT.depth : NT → Nat → Nat
  | .line, n => 4 * n + 5
  | .pipe, n => 4 * n + 4
  | .exec, n => 4 * n + 3

section complete

variable {buf : List Char} {es : Nat} (ht : Terminated buf es)
include ht

theorem parseBacks_complete {k : Nat} {ts rest : List Token} (h : Amps k ts rest) :
    headIn ['&'] rest = false → ∀ (fuel : Nat) (c : Cmd) (ps : Nat), ps ≤ es →
    lex buf es ps = ts → ts.length < fuel →
    ∃ ps', parseBacks buf es fuel c ps = .ok (Cmd.back^[k] c, ps') ∧ lex buf es ps' = rest ∧
      ps' ≤ es := by
  induction h with
  | nil ts =>
    intro hstop fuel c ps hps hl hf
    obtain ⟨f, rfl⟩ : ∃ f, fuel = f + 1 := ⟨fuel - 1, by omega⟩
    refine ⟨skipWs buf es ps, ?_, by rw [lex_skipWs ht hps, hl], skipWs_le hps⟩
    rw [parseBacks, peek_eq, peek_headIn ht hps (by simp), hl, hstop]
    rfl
  | @cons a k ts rest ha _ ih =>
    intro hstop fuel c ps hps hl hf
    obtain ⟨f, rfl⟩ : ∃ f, fuel = f + 1 := ⟨fuel - 1, by omega⟩
    obtain ⟨-, hl₁, hs⟩ := gettoken_of_lex_cons ht hps hl
    rw [List.length_cons] at hf
    obtain ⟨ps', he, hl', hps'⟩ := ih hstop f c.back _ hs hl₁ (by omega)
    refine ⟨ps', ?_, hl', hps'⟩
    rw [parseBacks, peek_eq, peek_headIn ht hps (by simp), hl, headIn_cons, ha]
    dsimp only
    rw [if_pos (by decide), gettoken_skipWs, he, Function.iterate_succ_apply]

theorem parseredirs_complete {ts rest : List Token} {rds : List (Token × Token)}
    (h : Redirs ts rest rds) :
    headIn redirOps rest = false → ∀ (fuel : Nat) (c : Cmd) (ps : Nat), ps ≤ es →
    lex buf es ps = ts → ts.length < fuel →
    ∃ ps', parseredirs buf es fuel c ps = .ok (wrap c rds, ps') ∧ lex buf es ps' = rest ∧
      ps' ≤ es := by
  induction h with
  | nil ts =>
    intro hstop fuel c ps hps hl hf
    obtain ⟨f, rfl⟩ : ∃ f, fuel = f + 1 := ⟨fuel - 1, by omega⟩
    refine ⟨skipWs buf es ps, ?_, by rw [lex_skipWs ht hps, hl], skipWs_le hps⟩
    rw [parseredirs, peek_eq, peek_redir_headIn ht hps, hl, hstop]
    rfl
  | @cons op file ts rest rds hop hfile _ ih =>
    intro hstop fuel c ps hps hl hf
    obtain ⟨f, rfl⟩ : ∃ f, fuel = f + 1 := ⟨fuel - 1, by omega⟩
    obtain ⟨htok, hl₁, hs⟩ := gettoken_of_lex_cons ht hps hl
    obtain ⟨hftok, hl₂, hs'⟩ := gettoken_of_lex_cons ht hs hl₁
    simp only [List.length_cons] at hf
    obtain ⟨ps', he, hl', hps'⟩ := ih hstop f (redirect op file c) _ hs' hl₂ (by omega)
    refine ⟨ps', ?_, hl', hps'⟩
    have hop' : (gettoken buf es ps).ret ∈ redirOps := by
      rw [← htok] at hop
      exact hop
    have hfa : (gettoken buf es (gettoken buf es ps).s).ret = 'a' := by
      rw [← hftok] at hfile
      exact hfile
    rw [parseredirs, peek_eq, peek_redir_headIn ht hps, hl, headIn_cons, decide_eq_true hop]
    dsimp only
    rw [if_pos rfl, gettoken_skipWs, if_neg (not_not.mpr hfa), redir_chain_eq c hop', htok, hftok,
      he, wrap_cons]

theorem parseexecLoop_complete {ts rest ws : List Token} {rds : List (Token × Token)}
    (h : Words ts rest ws rds) :
    StopsAt NT.exec.follow rest → ∀ (fuel : Nat) (ret : Cmd) (argv : List (Nat × Nat)) (ps : Nat),
    ps ≤ es → lex buf es ps = ts → ts.length < fuel → (argv ++ ws.map Token.span).length < MAXARGS →
    ∃ ps', parseexecLoop buf es fuel ret argv ps =
        .ok (wrap ret rds, argv ++ ws.map Token.span, ps') ∧ lex buf es ps' = rest ∧ ps' ≤ es := by
  induction h with
  | nil ts =>
    intro hstop fuel ret argv ps hps hl hf hargv
    obtain ⟨f, rfl⟩ : ∃ f, fuel = f + 1 := ⟨fuel - 1, by omega⟩
    simp only [List.map_nil, List.append_nil, wrap_nil]
    rw [parseexecLoop, peek_eq, peek_headIn ht hps (by simp), hl]
    dsimp only
    rcases hstop with rfl | hhead
    · -- 入力の終わり：`gettoken` が NUL を返す
      obtain ⟨hn, hs⟩ := gettoken_of_lex_nil ht hps hl
      refine ⟨(gettoken buf es ps).s, ?_, by rw [hs, lex_es ht], Nat.le_of_eq hs⟩
      rw [headIn_nil, if_neg Bool.false_ne_true, gettoken_skipWs, if_pos hn]
    · -- `|`・`)`・`&`・`;` の手前
      refine ⟨skipWs buf es ps, ?_, by rw [lex_skipWs ht hps, hl], skipWs_le hps⟩
      rw [show headIn ['|', ')', '&', ';'] ts = true from hhead, if_pos rfl]
  | @cons w ts mid rest ws rds rds' hw hr hws ih =>
    intro hstop fuel ret argv ps hps hl hf hargv
    obtain ⟨f, rfl⟩ : ∃ f, fuel = f + 1 := ⟨fuel - 1, by omega⟩
    obtain ⟨htok, hl₁, hs⟩ := gettoken_of_lex_cons ht hps hl
    have hlen := hr.length_eq
    simp only [List.length_cons] at hf
    -- word の後の redirection は、次の word か loop の終わりの手前で止まる
    have hmid : headIn redirOps mid = false :=
      hws.headIn_eq_false (hstop.headIn_eq_false (by simp [NT.follow, redirOps]))
        (by simp [redirOps])
    obtain ⟨p₁, he₁, hl₂, hp₁⟩ := parseredirs_complete ht hr hmid f ret _ hs hl₁ (by omega)
    have hargv' : (argv ++ [w.span] ++ ws.map Token.span).length < MAXARGS := by
      simpa using hargv
    obtain ⟨ps', he₂, hl', hps'⟩ :=
      ih hstop f (wrap ret rds) (argv ++ [w.span]) p₁ hp₁ hl₂ (by omega) hargv'
    refine ⟨ps', ?_, hl', hps'⟩
    have hret : (gettoken buf es ps).ret = 'a' := (congrArg Token.ret htok).trans hw
    have hspan : ((gettoken buf es ps).q, (gettoken buf es ps).eq) = w.span := by
      rw [← htok]
      rfl
    have hmax : ¬ (argv ++ [w.span]).length ≥ MAXARGS := by
      simp only [List.length_append, List.length_map, List.length_cons, List.length_nil] at hargv ⊢
      omega
    rw [parseexecLoop, peek_eq, peek_headIn ht hps (by simp), hl, headIn_cons, hw]
    dsimp only
    rw [if_neg (by decide), gettoken_skipWs, hret, if_neg (by decide), if_neg (by decide), hspan,
      if_neg hmax, he₁]
    dsimp only
    rw [he₂, wrap_append]
    simp

/-- 導出のある token の列は、十分な fuel で panic せずにその導出の木を返す。 -/
theorem parse_complete {n : NT} {ts rest : List Token} {c : Cmd} (h : Derives n ts rest c) :
    StopsAt n.follow rest → ∀ (fuel ps : Nat), ps ≤ es → lex buf es ps = ts →
    n.depth ts.length ≤ fuel →
    ∃ ps', n.parse buf es fuel ps = .ok (c, ps') ∧ lex buf es ps' = rest ∧ ps' ≤ es := by
  induction h with
  | @backs ts mid rest c k hp ha ihp =>
    intro hstop fuel ps hps hl hf
    simp only [NT.depth] at hf
    obtain ⟨f, rfl⟩ : ∃ f, fuel = f + 1 := ⟨fuel - 1, by omega⟩
    -- pipe の後は `&` か、line の後に来る token
    have hmid : StopsAt NT.pipe.follow mid := by
      cases ha with
      | nil => exact hstop.mono (by simp [NT.follow])
      | cons ha' _ => exact .inr (by simp [NT.follow, ha'])
    have hlen := hp.length_le
    obtain ⟨p₁, he₁, hl₁, hp₁⟩ := ihp hmid f ps hps hl (by simp only [NT.depth]; omega)
    obtain ⟨p₂, he₂, hl₂, hp₂⟩ := parseBacks_complete ht ha
      (hstop.headIn_eq_false (by simp [NT.follow])) f c p₁ hp₁ hl₁ (by omega)
    refine ⟨skipWs buf es p₂, ?_, by rw [lex_skipWs ht hp₂, hl₂], skipWs_le hp₂⟩
    simp only [NT.parse] at he₁ ⊢
    rw [parseline, he₁, ok_bind]
    dsimp only
    rw [he₂, ok_bind]
    dsimp only
    rw [peek_eq, peek_headIn ht hp₂ (by simp), hl₂, hstop.headIn_eq_false (by simp [NT.follow])]
    rfl
  | @list ts mid mid' rest semi c c' k hp ha hsemi hline ihp ihl =>
    intro hstop fuel ps hps hl hf
    simp only [NT.depth] at hf
    obtain ⟨f, rfl⟩ : ∃ f, fuel = f + 1 := ⟨fuel - 1, by omega⟩
    have hmid : StopsAt NT.pipe.follow mid := by
      cases ha with
      | nil => exact .inr (by simp [NT.follow, hsemi])
      | cons ha' _ => exact .inr (by simp [NT.follow, ha'])
    have hlen := hp.length_le
    have hk := ha.length_eq
    simp only [List.length_cons] at hk
    obtain ⟨p₁, he₁, hl₁, hp₁⟩ := ihp hmid f ps hps hl (by simp only [NT.depth]; omega)
    obtain ⟨p₂, he₂, hl₂, hp₂⟩ := parseBacks_complete ht ha (by simp [hsemi]) f c p₁ hp₁ hl₁
      (by omega)
    -- `;` を読み、残りの line へ
    obtain ⟨-, hl₃, hs⟩ := gettoken_of_lex_cons ht hp₂ hl₂
    obtain ⟨p₃, he₃, hl₄, hp₃⟩ := ihl hstop f _ hs hl₃ (by simp only [NT.depth]; omega)
    refine ⟨p₃, ?_, hl₄, hp₃⟩
    simp only [NT.parse] at he₁ he₃ ⊢
    rw [parseline, he₁, ok_bind]
    dsimp only
    rw [he₂, ok_bind]
    dsimp only
    rw [peek_eq, peek_headIn ht hp₂ (by simp), hl₂, headIn_cons, hsemi]
    dsimp only
    rw [if_pos (by decide), gettoken_skipWs, he₃, ok_bind]
    rfl
  | @single ts rest c he ihe =>
    intro hstop fuel ps hps hl hf
    simp only [NT.depth] at hf
    obtain ⟨f, rfl⟩ : ∃ f, fuel = f + 1 := ⟨fuel - 1, by omega⟩
    obtain ⟨p₁, he₁, hl₁, hp₁⟩ := ihe (hstop.mono (by simp [NT.follow])) f ps hps hl
      (by simp only [NT.depth]; omega)
    refine ⟨skipWs buf es p₁, ?_, by rw [lex_skipWs ht hp₁, hl₁], skipWs_le hp₁⟩
    simp only [NT.parse] at he₁ ⊢
    rw [parsepipe, he₁, ok_bind]
    dsimp only
    rw [peek_eq, peek_headIn ht hp₁ (by simp), hl₁, hstop.headIn_eq_false (by simp [NT.follow])]
    rfl
  | @pipe ts mid rest bar c c' he hbar hp ihe ihp =>
    intro hstop fuel ps hps hl hf
    simp only [NT.depth] at hf
    obtain ⟨f, rfl⟩ : ∃ f, fuel = f + 1 := ⟨fuel - 1, by omega⟩
    obtain ⟨p₁, he₁, hl₁, hp₁⟩ := ihe (.inr (by simp [NT.follow, hbar])) f ps hps hl
      (by simp only [NT.depth]; omega)
    -- `|` を読み、残りの pipe へ
    obtain ⟨-, hl₂, hs⟩ := gettoken_of_lex_cons ht hp₁ hl₁
    have hlen := he.length_le
    simp only [List.length_cons] at hlen
    obtain ⟨p₂, he₂, hl₃, hp₂⟩ := ihp hstop f _ hs hl₂ (by simp only [NT.depth]; omega)
    refine ⟨p₂, ?_, hl₃, hp₂⟩
    simp only [NT.parse] at he₁ he₂ ⊢
    rw [parsepipe, he₁, ok_bind]
    dsimp only
    rw [peek_eq, peek_headIn ht hp₁ (by simp), hl₁, headIn_cons, hbar]
    dsimp only
    rw [if_pos (by decide), gettoken_skipWs, he₂, ok_bind]
    rfl
  | @block lp rp ts mid rest c rds hlp hline hrp hr ihl =>
    intro hstop fuel ps hps hl hf
    simp only [NT.depth, List.length_cons] at hf
    obtain ⟨g, rfl⟩ : ∃ g, fuel = g + 2 := ⟨fuel - 2, by omega⟩
    -- `(` を読み、line と `)` の後の redirection
    obtain ⟨-, hl₁, hs⟩ := gettoken_of_lex_cons ht hps hl
    obtain ⟨p₁, he₁, hl₂, hp₁⟩ := ihl (.inr (by simp [NT.follow, hrp])) g _ hs hl₁
      (by simp only [NT.depth]; omega)
    obtain ⟨-, hl₃, hs'⟩ := gettoken_of_lex_cons ht hp₁ hl₂
    have hlen := hline.length_le
    simp only [List.length_cons] at hlen
    obtain ⟨p₂, he₂, hl₄, hp₂⟩ := parseredirs_complete ht hr (hstop.headIn_eq_false (by simp [NT.follow, redirOps]))
      g c _ hs' hl₃ (by omega)
    refine ⟨p₂, ?_, hl₄, hp₂⟩
    simp only [NT.parse] at he₁ ⊢
    have hb : headIn ['('] (lex buf es ps) = true := by
      rw [hl, headIn_cons, hlp]
      decide
    rw [parseexec, peek_eq, peek_headIn ht hps (by simp), hb]
    dsimp only
    rw [if_pos rfl, parseblock, peek_eq, peek_headIn ht (skipWs_le hps) (by simp),
      lex_skipWs ht hps, hb]
    dsimp only
    rw [Bool.not_true, if_neg Bool.false_ne_true, skipWs_skipWs, gettoken_skipWs, he₁]
    dsimp only
    rw [peek_eq, peek_headIn ht hp₁ (by simp), hl₂, headIn_cons, hrp]
    dsimp only
    rw [if_neg (by decide), gettoken_skipWs, he₂]
  | @simple ts mid rest ws rds rds' hr hws hlen =>
    intro hstop fuel ps hps hl hf
    simp only [NT.depth] at hf
    obtain ⟨f, rfl⟩ : ∃ f, fuel = f + 1 := ⟨fuel - 1, by omega⟩
    -- 先頭の redirection の後は、word か exec の後に来る token
    have hmid : headIn redirOps mid = false :=
      hws.headIn_eq_false (hstop.headIn_eq_false (by simp [NT.follow, redirOps]))
        (by simp [redirOps])
    have hb : headIn ['('] (lex buf es ps) = false := by
      rw [hl]
      have hws' : headIn ['('] mid = false :=
        hws.headIn_eq_false (hstop.headIn_eq_false (by simp [NT.follow])) (by decide)
      exact hr.headIn_eq_false hws' (by simp [redirOps])
    have hl' := hr.length_eq
    obtain ⟨p₁, he₁, hl₁, hp₁⟩ := parseredirs_complete ht hr hmid f (.exec []) _ (skipWs_le hps)
      (by rw [lex_skipWs ht hps, hl]) (by omega)
    obtain ⟨p₂, he₂, hl₂, hp₂⟩ := parseexecLoop_complete ht hws hstop f _ [] p₁ hp₁ hl₁ (by omega)
      (by simpa using hlen)
    refine ⟨p₂, ?_, hl₂, hp₂⟩
    simp only [NT.parse]
    rw [parseexec, peek_eq, peek_headIn ht hps (by simp), hb]
    dsimp only
    rw [if_neg Bool.false_ne_true, he₁, ok_bind]
    dsimp only
    rw [he₂, ok_bind]
    simp only [pure_eq_ok, fillArgv_wrap, List.nil_append, ← wrap_append]
    rfl

end complete

/-! ## `nulterminate` -/

/-- `nulterminate` は、木の中の word とファイル名の終わりに NUL を書く。 -/
theorem nulterminate_eq (c : Cmd) (buf : List Char) :
    nulterminate c buf = (c.spans.map Prod.snd).foldl (fun b p => b.set p NUL) buf := by
  induction c generalizing buf with
  | exec argv => simp [nulterminate, Cmd.spans, List.foldl_map]
  | redir c file efile mode fd ih => simp [nulterminate, Cmd.spans, ih, List.foldl_append]
  | pipe l r ihl ihr => simp [nulterminate, Cmd.spans, ihl, ihr, List.foldl_append]
  | list l r ihl ihr => simp [nulterminate, Cmd.spans, ihl, ihr, List.foldl_append]
  | back c ih => simp [nulterminate, Cmd.spans, ih]

theorem ne_nul_of_isWordChar {c : Char} (h : isWordChar c = true) : c ≠ NUL := by
  rintro rfl
  exact absurd h (by decide)

/--
木の中の word とファイル名がどれも word の範囲なら、`nulterminate` の後にそこから読む C の文字列は、
もとの buffer のその範囲の文字列。NUL を書く位置は word の文字でないので、どの word も壊さない。
-/
theorem cstrAt_nulterminate {buf : List Char} {c : Cmd} (hw : ∀ w ∈ c.spans, WordAt buf w)
    {w : Nat × Nat} (hmem : w ∈ c.spans) :
    cstrAt (nulterminate c buf) w.1 = (buf.drop w.1).take (w.2 - w.1) := by
  obtain ⟨hlt, hword, hstop⟩ := hw w hmem
  -- `nulterminate` の後の文字：書いた位置は NUL、ほかはもとのまま
  have hget : ∀ i, (nulterminate c buf).getD i NUL =
      if i ∈ c.spans.map Prod.snd then NUL else buf.getD i NUL := by
    intro i
    rw [nulterminate_eq, Infra.getD_foldl_set]
  have hnot : ∀ i, w.1 ≤ i → i < w.2 → i ∉ c.spans.map Prod.snd := by
    intro i hi hi' hmem'
    obtain ⟨w', hw', rfl⟩ := List.mem_map.mp hmem'
    have := (hw w' hw').stop
    rw [hword _ hi hi'] at this
    exact absurd this (by decide)
  unfold cstrAt
  refine Infra.takeWhile_eq_take (p := fun x => x != NUL) (d := NUL) (by decide)
    (fun i hi => ?_) ?_
  · rw [Infra.getD_drop, Infra.getD_drop, hget, if_neg (hnot _ (by omega) (by omega))]
    refine ⟨rfl, ?_⟩
    exact bne_iff_ne.mpr (ne_nul_of_isWordChar (hword _ (by omega) (by omega)))
  · rw [Infra.getD_drop, hget, Nat.add_sub_cancel' (Nat.le_of_lt hlt),
      if_pos (List.mem_map.mpr ⟨w, hmem, rfl⟩)]
    decide

/-! ## `parsecmd` -/

/-- `parsecmd` は `parseline` の結果の後に空白しか残らなければ、その木を返す。 -/
theorem parsecmd_of_parseline {buf : List Char} {c : Cmd} {s : Nat}
    (h : parseline buf (strlen buf) (shFuel buf) 0 = .ok (c, s)) (hs : s ≤ strlen buf) :
    parsecmd buf = if lex buf (strlen buf) s = [] then .ok (c, nulterminate c buf)
      else .error (.panic "syntax") := by
  rw [parsecmd, h]
  dsimp only
  rw [peek_snd]
  by_cases hl : lex buf (strlen buf) s = []
  · rw [if_pos hl, if_neg (not_not.mpr ((lex_eq_nil_iff (terminated_strlen buf) hs).mp hl))]
  · rw [if_neg hl, if_pos (mt (lex_eq_nil_iff (terminated_strlen buf) hs).mpr hl)]

theorem parsecmd_of_error {buf : List Char} {e : Stop}
    (h : parseline buf (strlen buf) (shFuel buf) 0 = .error e) : parsecmd buf = .error e := by
  rw [parsecmd, h]

/--
`parsecmd` は止まる（panic で止まるか戻る）。panic せずに戻るのは、入力の token の列が `line` から
導かれるときに限る。返す木はその導出の木で、`nulterminate` の後、木の中の word とファイル名は
どれも、入力の word の token の文字列になる。
-/
theorem parsecmd_accepts_grammar (buf : List Char) :
    ((∃ r, parsecmd buf = .ok r) ∨ ∃ msg, parsecmd buf = .error (.panic msg)) ∧
    ((∃ r, parsecmd buf = .ok r) ↔ ∃ c, Derives .line (tokens buf) [] c) ∧
    (∀ c, Derives .line (tokens buf) [] c → parsecmd buf = .ok (c, nulterminate c buf)) ∧
    (∀ c b, parsecmd buf = .ok (c, b) →
      Derives .line (tokens buf) [] c ∧ b = nulterminate c buf ∧
      ∀ w ∈ c.spans, ∃ t ∈ tokens buf, t.ret = 'a' ∧ t.span = w ∧
        cstrAt b t.q = (buf.drop t.q).take (t.eq - t.q)) := by
  have ht := terminated_strlen buf
  have h0 : 0 ≤ strlen buf := Nat.zero_le _
  have hf : 4 * (tokens buf).length + 5 ≤ shFuel buf := by
    have := lex_length_le ht h0
    unfold tokens shFuel
    omega
  -- 健全性と停止性：`parseline` は panic するか、導出を返す
  have hsound : ∀ c b, parsecmd buf = .ok (c, b) →
      Derives .line (tokens buf) [] c ∧ b = nulterminate c buf := by
    intro c b hok
    rcases (parseline_total ht h0 hf).ok_or_panic with ⟨⟨c', s⟩, he, hs, hd⟩ | ⟨msg, he⟩
    · rw [parsecmd_of_parseline he hs] at hok
      split_ifs at hok with hl
      obtain ⟨rfl, rfl⟩ := Prod.mk.inj (Except.ok.inj hok)
      rw [hl] at hd
      exact ⟨hd, rfl⟩
    · rw [parsecmd_of_error he] at hok
      cases hok
  -- 完全性：導出があれば、その木を返す
  have hcomplete : ∀ c, Derives .line (tokens buf) [] c →
      parsecmd buf = .ok (c, nulterminate c buf) := by
    intro c hd
    obtain ⟨s, he, hl, hs⟩ := parse_complete ht hd (.inl rfl) (shFuel buf) 0 h0 rfl hf
    rw [parsecmd_of_parseline he hs, if_pos hl]
  refine ⟨?_, ⟨?_, ?_⟩, hcomplete, ?_⟩
  · rcases (parseline_total ht h0 hf).ok_or_panic with ⟨⟨c, s⟩, he, hs, -⟩ | ⟨msg, he⟩
    · rw [parsecmd_of_parseline he hs]
      split_ifs
      · exact .inl ⟨_, rfl⟩
      · exact .inr ⟨_, rfl⟩
    · exact .inr ⟨msg, parsecmd_of_error he⟩
  · rintro ⟨⟨c, b⟩, hok⟩
    exact ⟨c, (hsound c b hok).1⟩
  · rintro ⟨c, hd⟩
    exact ⟨_, hcomplete c hd⟩
  · intro c b hok
    obtain ⟨hd, rfl⟩ := hsound c b hok
    refine ⟨hd, rfl, fun w hw => ?_⟩
    -- 木の中の word はどれも入力の word の token で、その範囲は word
    have hwords : ∀ w ∈ c.spans, WordAt buf w := by
      intro w hw
      obtain ⟨t, htm, hta, rfl⟩ := hd.spans w hw
      exact lex_word ht h0 htm hta
    obtain ⟨t, htm, hta, rfl⟩ := hd.spans w hw
    exact ⟨t, htm, hta, rfl, cstrAt_nulterminate hwords hw⟩

end Xv6.Sh

import Mathlib.Data.Set.Defs
import Mathlib.Data.List.TakeWhile

/-!
# grep の正規表現（`grep.c`）

`grep.c` の後半にある正規表現の matcher である。`match` は `^` があれば先頭でだけ、なければ text の
各位置から `matchhere` を試す。`matchhere` は pattern を先頭から一つずつ読み、次が `*` なら
`matchstar` に移る。`matchstar` は `c*` が 0 文字、1 文字、… を食った残りで `matchhere` を試す。

## 言語

pattern の読み方を、matcher とは別に書く。`^` を除いた pattern は atom の列で、atom は文字か
`.`（どの文字とも合う）、その後に `*` があれば 0 回以上の繰り返しである（`pieces`・`lang`）。
最後の `$` は atom ではなく、合った部分が text の終わりまで届くことを求める（`endAnchored`）。

`matchhere_iff` — `matchhere re text` は、text の先頭のある部分が `re` の言語に入ることである。
`match_iff_lang` — `match` は、text のある位置から始まる部分が言語に入ることである。

## 停止性

`matchhere` と `matchstar` は互いを呼ぶ。測度は pattern の長さ、次に text の長さである。
`matchhere` は pattern を一文字以上縮めて進み、`matchstar` は同じ pattern のまま text を縮める。
-/

namespace Xv6.Grep

/-! ## matcher -/

mutual

/-- `matchhere(re, text)`。text の先頭で `re` を探す。 -/
def matchhere (re text : List Char) : Bool :=
  match re with
  | [] => true
  | c :: '*' :: rest => matchstar c rest text
  | c :: rest =>
    if c = '$' ∧ rest = [] then text.isEmpty
    else
      match text with
      | t :: text => (c == '.' || c == t) && matchhere rest text
      | [] => false
termination_by (re.length, text.length)

/-- `matchstar(c, re, text)`。`c*re` を text の先頭で探す。まず 0 文字で試し、一文字食って繰り返す。 -/
def matchstar (c : Char) (re text : List Char) : Bool :=
  matchhere re text ||
    match text with
    | t :: text => (t == c || c == '.') && matchstar c re text
    | [] => false
termination_by (re.length + 1, text.length)

end

/-- `match` の loop。text の各位置で `matchhere` を試す。空の text の位置も試す。 -/
def matchLoop (re : List Char) : List Char → Bool
  | [] => matchhere re []
  | t :: text => matchhere re (t :: text) || matchLoop re text

/-- `match(re, text)`。 -/
def «match» (re text : List Char) : Bool :=
  if re.head? = some '^' then matchhere (re.drop 1) text else matchLoop re text

/-! ## pattern の言語 -/

/-- atom。文字か、どの文字とも合う `.`。 -/
inductive Atom where
  | lit (c : Char)
  | any
deriving DecidableEq, Repr

/-- atom が文字と合うか。 -/
def Atom.ok : Atom → Char → Bool
  | .lit c, t => c == t
  | .any, _ => true

/-- pattern の一文字を atom として読む。 -/
def atomOf (c : Char) : Atom := if c = '.' then .any else .lit c

/-- atom と、後ろに `*` があるか。 -/
structure Piece where
  atom : Atom
  star : Bool
deriving DecidableEq, Repr

/-- pattern を atom の列として読む。文字の次が `*` なら、その二文字で繰り返しの atom になる。 -/
def pieces : List Char → List Piece
  | [] => []
  | [c] => [⟨atomOf c, false⟩]
  | c :: d :: re => if d = '*' then ⟨atomOf c, true⟩ :: pieces re else ⟨atomOf c, false⟩ :: pieces (d :: re)

/-- atom の列の言語。繰り返しの atom は、その atom に合う文字の任意の列と合う。 -/
def lang : List Piece → Set (List Char)
  | [] => {[]}
  | ⟨a, false⟩ :: ps => {s | ∃ c t, s = c :: t ∧ a.ok c = true ∧ t ∈ lang ps}
  | ⟨a, true⟩ :: ps => {s | ∃ u t, s = u ++ t ∧ (∀ c ∈ u, a.ok c = true) ∧ t ∈ lang ps}

/-- pattern が `$` で終わるか。 -/
def endAnchored (re : List Char) : Bool := re.getLast? == some '$'

/-- 最後の `$` を除いた pattern。 -/
def core (re : List Char) : List Char := if endAnchored re then re.dropLast else re

/-- `^` を除いた pattern。 -/
def body (re : List Char) : List Char := if re.head? = some '^' then re.drop 1 else re

/--
text の先頭の `k` 文字が pattern `re`（`^` を除いたもの）の言語に入る。最後の `$` があれば、
`k` は text の長さである。
-/
def HereMatch (re text : List Char) (k : Nat) : Prop :=
  k ≤ text.length ∧ text.take k ∈ lang (pieces (core re)) ∧ (endAnchored re = true → k = text.length)

/-! ## 読み方の等式 -/

section reading

variable {c : Char} {r : List Char}

@[simp] theorem pieces_star : pieces (c :: '*' :: r) = ⟨atomOf c, true⟩ :: pieces r := by
  simp [pieces]

/-- 次が `*` でない文字は、繰り返さない atom である。 -/
theorem pieces_cons_of_head (h : r.head? ≠ some '*') : pieces (c :: r) = ⟨atomOf c, false⟩ :: pieces r := by
  cases r with
  | nil => rfl
  | cons d r =>
    have hd : d ≠ '*' := fun hd => h (by simp [hd])
    simp [pieces, hd]

theorem endAnchored_cons (hr : r ≠ []) : endAnchored (c :: r) = endAnchored r := by
  simp [endAnchored, List.getLast?_cons, List.getLast?_eq_some_getLast hr]

/-- 最後の `$` でない文字を前に足しても、`$` で終わるかは変わらない。 -/
theorem endAnchored_cons_of (h : ¬(c = '$' ∧ r = [])) : endAnchored (c :: r) = endAnchored r := by
  by_cases hr : r = []
  · subst hr
    have hc : c ≠ '$' := fun hc => h ⟨hc, rfl⟩
    simp [endAnchored, hc]
  · exact endAnchored_cons hr

@[simp] theorem endAnchored_star : endAnchored (c :: '*' :: r) = endAnchored r := by
  cases r with
  | nil => rfl
  | cons d r => rw [endAnchored_cons (by simp), endAnchored_cons (by simp)]

@[simp] theorem core_star : core (c :: '*' :: r) = c :: '*' :: core r := by
  unfold core
  rw [endAnchored_star]
  split
  · rename_i h
    have hr : r ≠ [] := by rintro rfl; simp [endAnchored] at h
    simp [List.dropLast_cons_of_ne_nil hr]
  · rfl

/-- 最後の `$` でない文字は、`$` を除いても先頭に残る。 -/
theorem core_cons (h : ¬(c = '$' ∧ r = [])) : core (c :: r) = c :: core r := by
  by_cases hr : r = []
  · subst hr
    have hc : c ≠ '$' := fun hc => h ⟨hc, rfl⟩
    simp [core, endAnchored, hc]
  · unfold core
    rw [endAnchored_cons hr]
    split
    · exact List.dropLast_cons_of_ne_nil hr
    · rfl

-- `^x.*$` の `^` と `$` を除くと、`x` と `.*` の二つの atom が残る
example : pieces (core (body "^x.*$".toList)) = [⟨.lit 'x', false⟩, ⟨.any, true⟩] := by decide

/-- `$` を除いても、先頭の文字は変わらないか、なくなる。 -/
theorem head?_core (h : r.head? ≠ some '*') : (core r).head? ≠ some '*' := by
  unfold core
  split
  · cases r with
    | nil => simp
    | cons d r =>
      cases r with
      | nil => simp
      | cons e r => simpa [List.dropLast_cons_of_ne_nil] using h
  · exact h

theorem ok_atomOf (t : Char) : (atomOf c).ok t = (c == '.' || c == t) := by
  unfold atomOf
  split
  · simp [Atom.ok, *]
  · simp [Atom.ok, *]

end reading

/-! ## 言語の等式 -/

section lang

variable {a : Atom} {ps : List Piece} {s : List Char}

theorem mem_lang_one : s ∈ lang (⟨a, false⟩ :: ps) ↔ ∃ c t, s = c :: t ∧ a.ok c = true ∧ t ∈ lang ps :=
  Iff.rfl

theorem mem_lang_star : s ∈ lang (⟨a, true⟩ :: ps) ↔
    ∃ u t, s = u ++ t ∧ (∀ c ∈ u, a.ok c = true) ∧ t ∈ lang ps :=
  Iff.rfl

@[simp] theorem mem_lang_nil : s ∈ lang [] ↔ s = [] := Iff.rfl

end lang

/-! ## `HereMatch` の場合分け

`matchhere` の枝ごとに、`HereMatch` の側の等式を一つ用意する。
-/

section here

variable {c t : Char} {r text : List Char}

theorem hereMatch_nil (text : List Char) : HereMatch [] text 0 := by
  simp [HereMatch, core, endAnchored, pieces, mem_lang_nil]

theorem exists_hereMatch_dollar : (∃ k, HereMatch ['$'] text k) ↔ text = [] := by
  have hcore : core ['$'] = [] := by simp [core, endAnchored]
  constructor
  · rintro ⟨k, -, hmem, hanc⟩
    rw [hcore] at hmem
    have hk := hanc (by simp [endAnchored])
    simpa [pieces, mem_lang_nil, hk] using hmem
  · rintro rfl
    exact ⟨0, by simp [HereMatch, hcore, pieces, mem_lang_nil]⟩

/-- `c*` の後ろの部分：text の先頭の `n` 文字が `c` に合い、残りで `r` が合う。 -/
theorem exists_hereMatch_star : (∃ k, HereMatch (c :: '*' :: r) text k) ↔
    ∃ n ≤ text.length, (∀ x ∈ text.take n, (atomOf c).ok x = true) ∧ ∃ k, HereMatch r (text.drop n) k := by
  simp only [HereMatch, core_star, pieces_star, endAnchored_star, mem_lang_star]
  constructor
  · rintro ⟨k, hk, ⟨u, w, hsplit, hall, hw⟩, hanc⟩
    -- 繰り返しが食った `u` の長さを `n` とする
    have hlen : u.length + w.length = k := by
      have := congrArg List.length hsplit
      simp only [List.length_take, List.length_append] at this
      omega
    have hu : text.take u.length = u := by
      have := congrArg (List.take u.length) hsplit
      rwa [List.take_take, Nat.min_eq_left (by omega), List.take_left' rfl] at this
    have hw' : (text.drop u.length).take (k - u.length) = w := by
      have := congrArg (List.drop u.length) hsplit
      rwa [List.drop_take, List.drop_left' rfl] at this
    refine ⟨u.length, by omega, by rw [hu]; exact hall, k - u.length, ?_, hw' ▸ hw, fun h => ?_⟩
    · simp only [List.length_drop]
      omega
    · simp only [List.length_drop]
      have := hanc h
      omega
  · rintro ⟨n, hn, hall, k, hk, hmem, hanc⟩
    simp only [List.length_drop] at hk hanc
    refine ⟨n + k, by omega, ⟨text.take n, (text.drop n).take k, List.take_add .., hall, hmem⟩, fun h => ?_⟩
    have := hanc h
    omega

section plain

variable (hs : r.head? ≠ some '*') (hd : ¬(c = '$' ∧ r = []))
include hs hd

/-- 繰り返さない atom：text の先頭の文字が合い、残りで `r` が合う。 -/
theorem exists_hereMatch_cons : (∃ k, HereMatch (c :: r) (t :: text) k) ↔
    (atomOf c).ok t = true ∧ ∃ k, HereMatch r text k := by
  simp only [HereMatch, core_cons hd, pieces_cons_of_head (head?_core hs), mem_lang_one,
    endAnchored_cons_of hd]
  constructor
  · rintro ⟨k, hk, ⟨x, w, hsplit, hok, hw⟩, hend⟩
    -- 一文字以上食っている
    obtain ⟨k, rfl⟩ : ∃ k', k = k' + 1 := Nat.exists_eq_succ_of_ne_zero (by rintro rfl; simp at hsplit)
    simp only [List.take_succ_cons, List.cons.injEq] at hsplit
    obtain ⟨rfl, rfl⟩ := hsplit
    refine ⟨hok, k, by simpa using hk, hw, fun h => ?_⟩
    simpa using hend h
  · rintro ⟨hok, k, hk, hw, hend⟩
    refine ⟨k + 1, by simpa using hk, ⟨t, text.take k, by simp, hok, hw⟩, fun h => ?_⟩
    simpa using hend h

/-- 空の text には、繰り返さない atom は合わない。 -/
theorem not_hereMatch_cons_nil (k : Nat) : ¬ HereMatch (c :: r) [] k := by
  rintro ⟨hk, hmem, -⟩
  simp only [List.length_nil, Nat.le_zero] at hk
  subst hk
  rw [core_cons hd, pieces_cons_of_head (head?_core hs)] at hmem
  obtain ⟨x, w, h, -⟩ := hmem
  simp at h

end plain

end here

/-! ## matcher の正しさ -/

section spec

variable {c : Char} {r : List Char}

/-- `matchstar` の文字の検査は、atom `c` がその文字と合うことである。 -/
theorem star_ok (t : Char) : (t == c || c == '.') = (atomOf c).ok t := by
  rw [ok_atomOf, Bool.or_comm]
  by_cases h : t = c
  · rw [h]
  · rw [beq_false_of_ne h, beq_false_of_ne (Ne.symm h)]

theorem not_star_of_head (hs : r.head? ≠ some '*') : ∀ r', r = '*' :: r' → False := by
  rintro r' rfl
  exact hs rfl

/--
`matchstar c r text` は、text の先頭の何文字かが `c` に合い、残りの text の先頭で `r` が合うことである。
`r` についての `matchhere` の正しさを仮定する。
-/
theorem matchstar_iff (ih : ∀ text, matchhere r text = true ↔ ∃ k, HereMatch r text k) (text : List Char) :
    matchstar c r text = true ↔
      ∃ n ≤ text.length, (∀ x ∈ text.take n, (atomOf c).ok x = true) ∧ ∃ k, HereMatch r (text.drop n) k := by
  induction text with
  | nil =>
    rw [matchstar.eq_2, Bool.or_false, ih]
    simp
  | cons t text iht =>
    rw [matchstar.eq_1, star_ok]
    simp only [Bool.or_eq_true, Bool.and_eq_true, ih, iht]
    constructor
    · rintro (h | ⟨hok, n, hn, hall, hk⟩)
      · exact ⟨0, by simp, by simp, by simpa using h⟩
      · refine ⟨n + 1, by simpa using hn, ?_, by simpa using hk⟩
        simpa [List.take_succ_cons] using ⟨hok, hall⟩
    · rintro ⟨n, hn, hall, hk⟩
      cases n with
      | zero => exact .inl (by simpa using hk)
      | succ n =>
        simp only [List.take_succ_cons, List.mem_cons, forall_eq_or_imp] at hall
        exact .inr ⟨hall.1, n, by simpa using hn, hall.2, by simpa using hk⟩

/-- **`matchhere re text` は、text の先頭のある部分が `re` の言語に入ることである。** -/
theorem matchhere_iff (re text : List Char) : matchhere re text = true ↔ ∃ k, HereMatch re text k := by
  -- pattern の長さについての強い帰納法。`*` の枝は text についての帰納法を `matchstar_iff` に任せる
  induction hn : re.length using Nat.strong_induction_on generalizing re text with
  | _ n ih =>
    rcases re with _ | ⟨c, rest⟩
    · simpa [matchhere.eq_1] using ⟨0, hereMatch_nil text⟩
    by_cases hstar : rest.head? = some '*'
    · -- `c*` の枝
      obtain ⟨r, rfl⟩ : ∃ r, rest = '*' :: r := by
        cases rest with
        | nil => simp at hstar
        | cons d r => exact ⟨r, by simpa using hstar⟩
      rw [matchhere.eq_2, exists_hereMatch_star,
        matchstar_iff (fun text => ih r.length (by rw [← hn]; simp only [List.length_cons]; omega) r text rfl)]
    · have ihr : ∀ text, matchhere rest text = true ↔ ∃ k, HereMatch rest text k :=
        fun text => ih rest.length (by simp [← hn]) rest text rfl
      by_cases hd : c = '$' ∧ rest = []
      · -- 最後の `$`
        obtain ⟨rfl, rfl⟩ := hd
        rw [exists_hereMatch_dollar]
        cases text with
        | nil => simp [matchhere.eq_4]
        | cons t text => simp [matchhere.eq_3]
      · cases text with
        | nil =>
          rw [matchhere.eq_4 _ _ (not_star_of_head hstar), if_neg hd]
          simpa using not_hereMatch_cons_nil hstar hd
        | cons t text =>
          rw [matchhere.eq_3 _ _ _ _ (not_star_of_head hstar), if_neg hd, exists_hereMatch_cons hstar hd,
            Bool.and_eq_true, ← ok_atomOf, ihr]

/-- `match` の loop は、text のある位置から `matchhere` が合うことである。 -/
theorem matchLoop_iff (re text : List Char) :
    matchLoop re text = true ↔ ∃ i ≤ text.length, matchhere re (text.drop i) = true := by
  induction text with
  | nil => simp [matchLoop]
  | cons t text ih =>
    rw [matchLoop, Bool.or_eq_true, ih]
    constructor
    · rintro (h | ⟨i, hi, h⟩)
      · exact ⟨0, by simp, h⟩
      · exact ⟨i + 1, by simpa using hi, by simpa using h⟩
    · rintro ⟨i, hi, h⟩
      cases i with
      | zero => exact .inl h
      | succ i => exact .inr ⟨i, by simpa using hi, by simpa using h⟩

/-- text の位置 `i` から始まる部分についての `HereMatch` を、text の上の位置 `i + k` で言い直す。 -/
theorem hereMatch_drop_iff {b text : List Char} {i k : Nat} (hi : i ≤ text.length) :
    HereMatch b (text.drop i) k ↔ i + k ≤ text.length ∧ (text.drop i).take k ∈ lang (pieces (core b)) ∧
      (endAnchored b = true → i + k = text.length) := by
  simp only [HereMatch, List.length_drop]
  constructor
  · rintro ⟨hk, hmem, hanc⟩
    exact ⟨by omega, hmem, fun h => by have := hanc h; omega⟩
  · rintro ⟨hk, hmem, hanc⟩
    exact ⟨by omega, hmem, fun h => by have := hanc h; omega⟩

end spec

/--
**grep の `match` は pattern の言語を決める。**

`match(re, text)` が 1 を返すのは、text のある位置 `i`（`re` が `^` で始まれば `i = 0` だけ）から
の部分 `text[i..j)` が、`^` を除いた pattern の言語に入るときである。pattern が `$` で終われば
`j` は text の長さである。`matchhere` と `matchstar` の相互再帰は、pattern の長さと text の長さの
辞書式順序で止まる（定義の `termination_by`）。
-/
theorem match_iff_lang (re text : List Char) :
    «match» re text = true ↔ ∃ i j, i ≤ j ∧ j ≤ text.length ∧ (re.head? = some '^' → i = 0) ∧
      (text.drop i).take (j - i) ∈ lang (pieces (core (body re))) ∧
      (endAnchored (body re) = true → j = text.length) := by
  unfold «match»
  by_cases h : re.head? = some '^'
  · -- `^`：位置 0 でだけ試す
    have hb : body re = re.drop 1 := by simp [body, h]
    rw [if_pos h, matchhere_iff, hb]
    constructor
    · rintro ⟨k, hk⟩
      obtain ⟨hle, hmem, hanc⟩ := (hereMatch_drop_iff (Nat.zero_le _)).mp (by simpa using hk)
      exact ⟨0, k, Nat.zero_le _, by omega, fun _ => rfl, by simpa using hmem, by simpa using hanc⟩
    · rintro ⟨i, j, -, hj, hi, hmem, hanc⟩
      obtain rfl := hi h
      rw [Nat.sub_zero, List.drop_zero] at hmem
      exact ⟨j, hj, hmem, hanc⟩
  · have hb : body re = re := by simp [body, h]
    rw [if_neg h, matchLoop_iff, hb]
    constructor
    · rintro ⟨i, hi, hm⟩
      obtain ⟨k, hk⟩ := (matchhere_iff _ _).mp hm
      obtain ⟨hle, hmem, hanc⟩ := (hereMatch_drop_iff hi).mp hk
      exact ⟨i, i + k, by omega, hle, fun h' => absurd h' h, by simpa using hmem, hanc⟩
    · rintro ⟨i, j, hij, hj, -, hmem, hanc⟩
      refine ⟨i, by omega, (matchhere_iff _ _).mpr ⟨j - i, (hereMatch_drop_iff (by omega)).mpr ?_⟩⟩
      refine ⟨by omega, hmem, fun h' => ?_⟩
      have := hanc h'
      omega

end Xv6.Grep

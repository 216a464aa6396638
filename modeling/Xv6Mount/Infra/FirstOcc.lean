import Mathlib.Data.List.Dedup
import Mathlib.Data.Finset.Card

/-!
# 最初に現れた順の重複除去

列 `l` の要素を、最初に現れた順に一度ずつ並べた列 `firstOcc l`。Mathlib の `List.dedup` は
最後に現れたものを残すので、逆順にして `dedup` し、また逆にする。

* `firstOcc_append_singleton` — 末尾に一つ足すと、新しい要素なら末尾に付き、すでにあれば変わらない。
  「最初に現れた順」はこの漸化式で決まる
* `foldl_insertLast` — 「なければ末尾に足す」を畳み込んだ列は、初めの列に、`firstOcc` のうち
  初めの列にないものを足したものである
* `nodup_firstOcc`・`mem_firstOcc`・`length_firstOcc`

この file は列の要素が何かを知らない。
-/

namespace Infra

variable {α : Type*} [DecidableEq α]

/-- 要素を最初に現れた順に一度ずつ並べた列。 -/
def firstOcc (l : List α) : List α := l.reverse.dedup.reverse

/-- なければ末尾に足す。 -/
def insertLast (acc : List α) (a : α) : List α := if a ∈ acc then acc else acc ++ [a]

@[simp] theorem firstOcc_nil : firstOcc ([] : List α) = [] := rfl

theorem firstOcc_append_singleton (l : List α) (a : α) :
    firstOcc (l ++ [a]) = if a ∈ l then firstOcc l else firstOcc l ++ [a] := by
  unfold firstOcc
  rw [List.reverse_append, List.reverse_singleton, List.singleton_append, List.dedup_cons]
  by_cases ha : a ∈ l
  · rw [if_pos (List.mem_reverse.mpr ha), if_pos ha]
  · rw [if_neg (mt List.mem_reverse.mp ha), if_neg ha, List.reverse_cons]

example : firstOcc [5, 3, 5, 7, 3] = [5, 3, 7] := by decide

@[simp] theorem mem_firstOcc {a : α} {l : List α} : a ∈ firstOcc l ↔ a ∈ l := by
  simp [firstOcc]

theorem nodup_firstOcc (l : List α) : (firstOcc l).Nodup :=
  List.nodup_reverse.mpr (List.nodup_dedup _)

/-- 重複を除いた長さは、異なる要素の数である。 -/
theorem length_firstOcc (l : List α) : (firstOcc l).length = l.toFinset.card := by
  have he : (firstOcc l).toFinset = l.toFinset := by
    ext a
    simp
  rw [← List.toFinset_card_of_nodup (nodup_firstOcc l), he]

/--
**「なければ末尾に足す」の畳み込み。** 初めの列 `acc` に、`l` の要素のうち `acc` にないものを、
最初に現れた順に一度ずつ足す。
-/
theorem foldl_insertLast (acc l : List α) :
    l.foldl insertLast acc = acc ++ (firstOcc l).filter (· ∉ acc) := by
  induction l using List.reverseRecOn with
  | nil => simp
  | append_singleton l a ih =>
    rw [List.foldl_append, ih, List.foldl_cons, List.foldl_nil, firstOcc_append_singleton]
    unfold insertLast
    by_cases hl : a ∈ l
    · -- すでに書いた要素は、`acc` か足した部分にある
      have hm : a ∈ acc ++ (firstOcc l).filter (· ∉ acc) := by
        by_cases ha : a ∈ acc
        · exact List.mem_append_left _ ha
        · exact List.mem_append_right _ (List.mem_filter.mpr ⟨mem_firstOcc.mpr hl, by simpa using ha⟩)
      rw [if_pos hm, if_pos hl]
    · rw [if_neg hl, List.filter_append]
      by_cases ha : a ∈ acc
      · rw [if_pos (List.mem_append_left _ ha)]
        simp [ha]
      · have hm : a ∉ acc ++ (firstOcc l).filter (· ∉ acc) := by
          simp [ha, hl]
        rw [if_neg hm]
        simp [ha]

end Infra

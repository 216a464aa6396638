import Xv6Mount.User.Umalloc
import Xv6Mount.Infra.Cycle
import Xv6Mount.Infra.Tile

/-!
# `free` が保つ heap の形

`umalloc.c` の heap は、最初の `sbrk` の位置 `h0` から break までを block がすき間なく覆い
（`Infra.Tiled`）、空き block は `base` から address 順に輪をなす。block の列は ghost の `List Blk`
で、各 block は header の番地と、空き list にあるかを持つ。

* `HeapInv` — heap の形：block が `[h0, brk)` を覆い、空き block と `base` が昇順の輪をなし、
  空き block は隣り合わない
* `HeapInv.between_iff` — `free` の探索が止まる節点は、返す block より前の空き block の最後
  （なければ `base`）だけである
* `HeapInv.upper_iff`・`HeapInv.lower_iff` — `free` が後ろの block とつなぐのは後ろが空きのとき、
  前の block とつなぐのは前が空きのとき
* `HeapInv.free_none`・`free_up`・`free_down`・`free_both` — 前後が空きかどうかの四通りのつなぎ替え
* `free_spec` — 使用中の block の `free` は heap の形を保ち、その block を空きに戻し、ほかの使用中の
  block の大きさを変えない（`Freed`）
* `HeapInv.free_ok` — 空き block の数より多い fuel で、使用中の block の `free` は止まる
-/

namespace Xv6.Umalloc

open Infra

/-! ## header の読み書き -/

attribute [ext] Header

/-- 番地 `x` の header の `ptr`。 -/
def Heap.ptrAt (h : Heap) (x : Nat) : Nat := (h.hdr x).ptr

/-- 番地 `x` の block の byte 数。 -/
def Heap.lenAt (h : Heap) (x : Nat) : Nat := sizeofHeader * (h.hdr x).size

@[simp] theorem Heap.setPtr_ptr (h : Heap) (a v : Nat) : ((h.setPtr a v).hdr a).ptr = v := by
  simp [Heap.setPtr]

theorem Heap.setPtr_of_ne (h : Heap) {a b : Nat} (v : Nat) (hb : b ≠ a) :
    (h.setPtr a v).hdr b = h.hdr b := by
  simp [Heap.setPtr, hb]

@[simp] theorem Heap.setSize_ptr (h : Heap) (a v b : Nat) :
    ((h.setSize a v).hdr b).ptr = (h.hdr b).ptr := by
  by_cases hb : b = a
  · subst hb
    simp [Heap.setSize]
  · simp [Heap.setSize, hb]

theorem Heap.setSize_of_ne (h : Heap) {a b : Nat} (v : Nat) (hb : b ≠ a) :
    (h.setSize a v).hdr b = h.hdr b := by
  simp [Heap.setSize, hb]

@[simp] theorem Heap.setPtr_base (h : Heap) (a v : Nat) : (h.setPtr a v).base = h.base := rfl
@[simp] theorem Heap.setPtr_brk (h : Heap) (a v : Nat) : (h.setPtr a v).brk = h.brk := rfl
@[simp] theorem Heap.setPtr_top (h : Heap) (a v : Nat) : (h.setPtr a v).top = h.top := rfl
@[simp] theorem Heap.setSize_base (h : Heap) (a v : Nat) : (h.setSize a v).base = h.base := rfl
@[simp] theorem Heap.setSize_brk (h : Heap) (a v : Nat) : (h.setSize a v).brk = h.brk := rfl
@[simp] theorem Heap.setSize_top (h : Heap) (a v : Nat) : (h.setSize a v).top = h.top := rfl

/-! ## block の列 -/

/-- heap の block（ghost）：header の番地と、空き list にあるか。 -/
structure Blk where
  addr : Nat
  free : Bool
  deriving DecidableEq, Repr

/-- 空き block の番地。address 順。 -/
def frees (ts : List Blk) : List Nat := (ts.filter (·.free)).map (·.addr)

/-- 使用中の block について `malloc` が返した pointer（header の次の番地）。 -/
def used (ts : List Blk) : List Nat := (ts.filter (fun t => !t.free)).map (·.addr + sizeofHeader)

@[simp] theorem frees_nil : frees [] = [] := rfl
@[simp] theorem frees_append (l₁ l₂ : List Blk) : frees (l₁ ++ l₂) = frees l₁ ++ frees l₂ := by
  simp [frees]

@[simp] theorem frees_cons_free (a : Nat) (l : List Blk) : frees (⟨a, true⟩ :: l) = a :: frees l := by
  simp [frees]

@[simp] theorem frees_cons_used (a : Nat) (l : List Blk) : frees (⟨a, false⟩ :: l) = frees l := by
  simp [frees]

@[simp] theorem used_nil : used [] = [] := rfl
@[simp] theorem used_append (l₁ l₂ : List Blk) : used (l₁ ++ l₂) = used l₁ ++ used l₂ := by
  simp [used]

@[simp] theorem used_cons_free (a : Nat) (l : List Blk) : used (⟨a, true⟩ :: l) = used l := by
  simp [used]

@[simp] theorem used_cons_used (a : Nat) (l : List Blk) :
    used (⟨a, false⟩ :: l) = (a + sizeofHeader) :: used l := by
  simp [used]

/-- 空き block の番地は block の番地の部分列。 -/
theorem frees_sublist (ts : List Blk) : (frees ts).Sublist (ts.map Blk.addr) :=
  List.filter_sublist.map Blk.addr

/-- 使用中の pointer は、使用中の block の番地の次。 -/
theorem mem_used {ts : List Blk} {q : Nat} : q ∈ used ts ↔ ∃ a, ⟨a, false⟩ ∈ ts ∧ q = a + sizeofHeader := by
  simp only [used, List.mem_map, List.mem_filter, Bool.not_eq_eq_eq_not, Bool.not_true]
  constructor
  · rintro ⟨⟨a, f⟩, ⟨hm, rfl⟩, rfl⟩
    exact ⟨a, hm, rfl⟩
  · rintro ⟨a, hm, rfl⟩
    exact ⟨⟨a, false⟩, ⟨hm, rfl⟩, rfl⟩

/-- 空き block の番地は、空きの block の番地。 -/
@[simp] theorem mem_frees {ts : List Blk} {x : Nat} : x ∈ frees ts ↔ ⟨x, true⟩ ∈ ts := by
  simp only [frees, List.mem_map, List.mem_filter]
  constructor
  · rintro ⟨⟨b, f⟩, ⟨hm, hf⟩, rfl⟩
    cases hf
    exact hm
  · intro hm
    exact ⟨⟨x, true⟩, ⟨hm, rfl⟩, rfl⟩

/-- 列 `b :: l` を最後の要素とその前に分ける。 -/
theorem exists_eq_snoc (b : Nat) (l : List Nat) : ∃ L p, b :: l = L ++ [p] :=
  ⟨(b :: l).dropLast, (b :: l).getLast (List.cons_ne_nil b l),
    (List.dropLast_append_getLast (List.cons_ne_nil b l)).symm⟩

/-- 空き block は隣り合わない。 -/
def Coalesced (ts : List Blk) : Prop := ts.IsChain fun s t => ¬(s.free = true ∧ t.free = true)

/-- 使用中の block をはさむ列は、前後それぞれが隣り合わなければよい。 -/
theorem coalesced_mid_used {pre post : List Blk} {a : Nat} :
    Coalesced (pre ++ ⟨a, false⟩ :: post) ↔ Coalesced pre ∧ Coalesced post := by
  simp [Coalesced, List.isChain_append, List.isChain_cons]

/-- 空き block をはさむ列は、前後それぞれが隣り合わず、すぐ前とすぐ後ろが空きでなければよい。 -/
theorem coalesced_mid_free {pre post : List Blk} {a : Nat} :
    Coalesced (pre ++ ⟨a, true⟩ :: post) ↔
      Coalesced pre ∧ Coalesced post ∧ (∀ t ∈ pre.getLast?, t.free = false) ∧
        ∀ t ∈ post.head?, t.free = false := by
  simp [Coalesced, List.isChain_append, List.isChain_cons]
  tauto

/-! ## heap の形 -/

/--
heap の形。`h0` は最初の `sbrk` の位置、`ts` は `[h0, brk)` を覆う block の列（ghost）。最初の
`malloc` の前（`freep = 0`）には block はない。その後は `base`（大きさ 0）と空き block が address 順の
輪をなし、`freep` はその輪の上にある。
-/
structure HeapInv (h : Heap) (h0 : Nat) (ts : List Blk) : Prop where
  base_pos : 0 < h.base
  base_lt : h.base < h0
  tiled : Tiled h.lenAt h0 (ts.map Blk.addr) h.brk
  brk_le : h.brk ≤ h.top
  empty : h.freep = 0 → ts = []
  base_size : h.freep ≠ 0 → (h.hdr h.base).size = 0
  cycle : h.freep ≠ 0 → Steps h.ptrAt (h.base :: frees ts ++ [h.base])
  freep_mem : h.freep ≠ 0 → h.freep ∈ h.base :: frees ts
  coalesced : Coalesced ts

namespace HeapInv

variable {h : Heap} {h0 : Nat} {ts : List Blk}

/-- block は `[h0, brk)` の中にあり、大きさは 0 でない。 -/
theorem bounds (hv : HeapInv h h0 ts) {t : Blk} (ht : t ∈ ts) :
    h0 ≤ t.addr ∧ t.addr + h.lenAt t.addr ≤ h.brk ∧ 0 < h.lenAt t.addr :=
  hv.tiled.bounds (List.mem_map_of_mem ht)

/-- block があれば、最初の `malloc` は済んでいる。 -/
theorem freep_ne (hv : HeapInv h h0 ts) (hne : ts ≠ []) : h.freep ≠ 0 :=
  fun hz => hne (hv.empty hz)

/-- 空き block は `[h0, brk)` の中にある。 -/
theorem free_bounds (hv : HeapInv h h0 ts) {x : Nat} (hx : x ∈ frees ts) :
    h0 ≤ x ∧ x + h.lenAt x ≤ h.brk ∧ 0 < h.lenAt x :=
  hv.tiled.bounds ((frees_sublist ts).subset hx)

/-- `base` と空き block は昇順に並ぶ。 -/
theorem sorted (hv : HeapInv h h0 ts) : (h.base :: frees ts).Pairwise (· < ·) := by
  refine List.Pairwise.cons (fun y hy => ?_) (hv.tiled.sorted.sublist (frees_sublist ts))
  have hy' := (hv.free_bounds hy).1
  have hb := hv.base_lt
  omega

/-- 輪の節点に重なりはない。 -/
theorem nodup (hv : HeapInv h h0 ts) : (h.base :: frees ts).Nodup :=
  hv.sorted.imp Nat.ne_of_lt

/-- 輪の節点は 0（NULL）でない。 -/
theorem cycle_pos (hv : HeapInv h h0 ts) {x : Nat} (hx : x ∈ h.base :: frees ts) : 0 < x := by
  rcases List.mem_cons.mp hx with rfl | hx
  · exact hv.base_pos
  · have := (hv.free_bounds hx).1
    have := hv.base_lt
    omega

/-- 最初の `malloc` の後、`base` の block の長さは 0。 -/
theorem lenAt_base (hv : HeapInv h h0 ts) (hne : h.freep ≠ 0) : h.lenAt h.base = 0 := by
  simp [Heap.lenAt, hv.base_size hne]

/-- 空き block の数は、break の上限までに入る block の数を越えない。 -/
theorem frees_length_le (hv : HeapInv h h0 ts) : (frees ts).length ≤ (h.top - h0) / sizeofHeader := by
  have hlen : (ts.map Blk.addr).length * sizeofHeader ≤ h.brk - h0 := by
    refine hv.tiled.length_mul_le fun x hx => ?_
    have := (hv.tiled.bounds hx).2.2
    simp only [Heap.lenAt, sizeofHeader] at this ⊢
    omega
  have hsub := (frees_sublist ts).length_le
  have hbrk := hv.brk_le
  rw [List.length_map] at hsub hlen
  rw [Nat.le_div_iff_mul_le (by decide)]
  calc (frees ts).length * sizeofHeader ≤ ts.length * sizeofHeader := Nat.mul_le_mul_right _ hsub
    _ ≤ h.brk - h0 := hlen
    _ ≤ h.top - h0 := by omega

/-- 使用中の block は輪の節点でない。 -/
theorem used_ne (hv : HeapInv h h0 ts) {b x : Nat} (hb : ⟨b, false⟩ ∈ ts)
    (hx : x ∈ h.base :: frees ts) : b ≠ x := by
  rcases List.mem_cons.mp hx with rfl | hx
  · have hb0 : h0 ≤ b := (hv.bounds hb).1
    have := hv.base_lt
    omega
  · rintro rfl
    have hnd : (ts.map Blk.addr).Nodup := hv.tiled.sorted.imp Nat.ne_of_lt
    have := List.inj_on_of_nodup_map hnd hb (mem_frees.mp hx) rfl
    simp at this

end HeapInv

/-! ## `free` の探索 -/

section Search

variable {h : Heap} {h0 a p : Nat} {pre post : List Blk} {L : List Nat}

/-- `free` の探索の一歩は、`Between` で止まるか次へ進む。 -/
theorem freeSearch_succ (h : Heap) (bp k p : Nat) :
    freeSearch h bp (k + 1) p =
      if Between p (h.ptrAt p) bp then .ok p else freeSearch h bp k (h.ptrAt p) := by
  simp only [freeSearch, Between, Heap.ptrAt, gt_iff_lt, ge_iff_le, Bool.and_eq_true, decide_eq_true_eq,
    Bool.or_eq_true]
  by_cases h₁ : p < bp ∧ bp < (h.hdr p).ptr
  · simp [h₁]
  · by_cases h₂ : (h.hdr p).ptr ≤ p ∧ (p < bp ∨ bp < (h.hdr p).ptr)
    · simp [h₁, h₂]
    · simp [h₁, h₂]

/-- 探索が返す節点は、閉じた節点の集まりの中で止まる条件を満たす。 -/
theorem freeSearch_ok {bp : Nat} {C : List Nat} (hC : ∀ x ∈ C, h.ptrAt x ∈ C) :
    ∀ {fuel x q : Nat}, x ∈ C → freeSearch h bp fuel x = .ok q → q ∈ C ∧ Between q (h.ptrAt q) bp
  | 0, _, _, _, hs => by simp [freeSearch] at hs
  | fuel + 1, x, q, hx, hs => by
    rw [freeSearch_succ] at hs
    split at hs
    · rename_i hb
      cases hs
      exact ⟨hx, hb⟩
    · exact freeSearch_ok hC (hC x hx) hs

/-- 空き block の列を、返す block の前の部分とその後ろに分ける。 -/
theorem cycle_split (hL : h.base :: frees pre = L ++ [p]) :
    h.base :: frees (pre ++ ⟨a, false⟩ :: post) = L ++ p :: frees post := by
  rw [frees_append, frees_cons_used, ← List.cons_append, hL]
  simp

/-- 返す block の前の block は、その前で終わる。 -/
theorem HeapInv.lt_of_mem_pre (hv : HeapInv h h0 (pre ++ ⟨a, false⟩ :: post)) (hL : h.base :: frees pre = L ++ [p])
    {y : Nat} (hy : y ∈ L ++ [p]) : y < a := by
  have ht : Tiled h.lenAt h0 (pre.map Blk.addr ++ a :: post.map Blk.addr) h.brk := by simpa using hv.tiled
  rw [← hL] at hy
  rcases List.mem_cons.mp hy with rfl | hy
  · have := hv.base_lt
    have := (ht.bounds (by simp : a ∈ pre.map Blk.addr ++ a :: post.map Blk.addr)).1
    omega
  · have hend := ht.end_le ((frees_sublist pre).subset hy) List.mem_cons_self
    have hpos := (ht.bounds (by simp [(frees_sublist pre).subset hy] :
      y ∈ pre.map Blk.addr ++ a :: post.map Blk.addr)).2.2
    omega

/-- 返す block の後ろの block は、その後ろから始まる。 -/
theorem HeapInv.lt_of_mem_post (hv : HeapInv h h0 (pre ++ ⟨a, false⟩ :: post)) {y : Nat}
    (hy : y ∈ post.map Blk.addr) : a + h.lenAt a ≤ y ∧ 0 < h.lenAt a := by
  have ht : Tiled h.lenAt h0 ((pre.map Blk.addr ++ [a]) ++ post.map Blk.addr) h.brk := by
    simpa using hv.tiled
  exact ⟨ht.end_le (by simp) hy, (ht.bounds (by simp)).2.2⟩

/--
**`free` の探索が止まる節点。** 使用中の block `a` を返すとき、輪の節点のうち `Between` を満たすのは、
`a` より前の空き block の最後（なければ `base`）の `p` だけである。
-/
theorem HeapInv.between_iff (hv : HeapInv h h0 (pre ++ ⟨a, false⟩ :: post))
    (hL : h.base :: frees pre = L ++ [p]) {x : Nat} (hx : x ∈ h.base :: frees (pre ++ ⟨a, false⟩ :: post)) :
    Between x (h.ptrAt x) a ↔ x = p := by
  have hne : h.freep ≠ 0 := hv.freep_ne (by simp)
  have hcyc := hv.cycle hne
  have hs := hv.sorted
  rw [cycle_split hL] at hcyc hs hx
  refine hcyc.between_iff hs ?_ (fun y hy => hv.lt_of_mem_pre hL hy) (fun y hy => ?_) hx
  · rw [← hL]
    exact List.mem_cons_self
  · have := hv.lt_of_mem_post ((frees_sublist post).subset hy)
    omega

/-- 返す block の前の節点 `p` の次は、後ろの最初の空き block か、なければ `base`。 -/
theorem HeapInv.ptrAt_pred (hv : HeapInv h h0 (pre ++ ⟨a, false⟩ :: post))
    (hL : h.base :: frees pre = L ++ [p]) : h.ptrAt p = (frees post).headD h.base := by
  have hcyc := hv.cycle (hv.freep_ne (by simp))
  rw [cycle_split hL] at hcyc
  cases hf : frees post with
  | nil => exact hcyc.next_eq L p h.base [] (by simp [hf])
  | cons y l => exact hcyc.next_eq L p y (l ++ [h.base]) (by simp [hf])

/--
**後ろとつなぐ条件。** 返す block の終わりが `p` の次の節点に等しいのは、すぐ後ろの block が空きの
ときだけである。
-/
theorem HeapInv.upper_iff (hv : HeapInv h h0 (pre ++ ⟨a, false⟩ :: post))
    (hL : h.base :: frees pre = L ++ [p]) :
    a + h.lenAt a = h.ptrAt p ↔ ∃ c post', post = ⟨c, true⟩ :: post' := by
  rw [hv.ptrAt_pred hL]
  have hb : h.base < a := hv.lt_of_mem_pre hL (by rw [← hL]; exact List.mem_cons_self)
  cases post with
  | nil =>
    -- 最後の block：終わりは break で、`p` の次は `base`
    have ht : Tiled h.lenAt h0 (pre.map Blk.addr ++ [a]) h.brk := by simpa using hv.tiled
    have hend := ht.last_eq
    suffices a + h.lenAt a ≠ h.base by simpa using this
    omega
  | cons t post' =>
    obtain ⟨c, f⟩ := t
    have ht : Tiled h.lenAt h0 (pre.map Blk.addr ++ a :: c :: post'.map Blk.addr) h.brk := by
      simpa using hv.tiled
    have hc := ht.next_eq
    cases f with
    | true => simp [hc]
    | false =>
      -- すぐ後ろは使用中の `c`：`p` の次はもっと後ろの空き block か `base`
      simp only [frees_cons_used, List.cons.injEq, Blk.mk.injEq, Bool.false_eq_true, and_false,
        false_and, exists_false, iff_false]
      cases hf : frees post' with
      | nil =>
        simp only [List.headD_nil]
        omega
      | cons d l =>
        have hd : d ∈ post'.map Blk.addr := (frees_sublist post').subset (by simp [hf])
        have ht' : Tiled h.lenAt h0 ((pre.map Blk.addr ++ [a, c]) ++ post'.map Blk.addr) h.brk := by
          simpa using hv.tiled
        have hcd := ht'.end_le (x := c) (by simp) hd
        have hpos := (ht'.bounds (by simp : c ∈ (pre.map Blk.addr ++ [a, c]) ++ post'.map Blk.addr)).2.2
        simp only [List.headD_cons]
        omega

/--
**前とつなぐ条件。** `p` の block の終わりが返す block の始まりに等しいのは、すぐ前の block が空きの
ときだけである。
-/
theorem HeapInv.lower_iff (hv : HeapInv h h0 (pre ++ ⟨a, false⟩ :: post))
    (hL : h.base :: frees pre = L ++ [p]) :
    p + h.lenAt p = a ↔ ∃ c pre', pre = pre' ++ [⟨c, true⟩] := by
  have hne : h.freep ≠ 0 := hv.freep_ne (by simp)
  have hpa : p < a := hv.lt_of_mem_pre hL (by simp)
  rcases pre.eq_nil_or_concat' with rfl | ⟨pre', ⟨c, f⟩, rfl⟩
  · -- 前に block はない：`p` は `base`
    obtain rfl : p = h.base := by
      have hp : p ∈ [h.base] := by
        rw [show [h.base] = L ++ [p] by simpa using hL]
        simp
      exact List.mem_singleton.mp hp
    simp only [hv.lenAt_base hne, Nat.add_zero, List.nil_eq_append_iff, List.cons_ne_nil, and_false,
      exists_false, iff_false]
    omega
  · cases f with
    | true =>
      -- すぐ前が空き block `c`：`p = c`
      obtain rfl : p = c := by
        have e : (h.base :: frees pre') ++ [c] = L ++ [p] := by simpa using hL
        exact (List.singleton_inj.mp (List.append_inj' e rfl).2).symm
      have ht : Tiled h.lenAt h0 (pre'.map Blk.addr ++ p :: a :: post.map Blk.addr) h.brk := by
        simpa using hv.tiled
      simp [← ht.next_eq]
    | false =>
      -- すぐ前が使用中の `c`：`p` は `base` か、`c` より前の空き block
      have e : h.base :: frees pre' = L ++ [p] := by simpa using hL
      have ht : Tiled h.lenAt h0 (pre'.map Blk.addr ++ c :: a :: post.map Blk.addr) h.brk := by
        simpa using hv.tiled
      have hca := ht.next_eq
      have hlt : p + h.lenAt p < a := by
        rcases List.mem_cons.mp (show p ∈ h.base :: frees pre' by rw [e]; simp) with rfl | hp
        · rw [hv.lenAt_base hne]
          exact hpa
        · have hpc := ht.end_le ((frees_sublist pre').subset hp) List.mem_cons_self
          have hpos := (ht.bounds (by simp : c ∈ pre'.map Blk.addr ++ c :: a :: post.map Blk.addr)).2.2
          omega
      constructor
      · intro heq
        omega
      · rintro ⟨c', pre'', he⟩
        have := (List.append_inj' he rfl).2
        simp at this

end Search

/-! ## `free` のつなぎ替え -/

/-- `free` の前半の `if`：`bp` の終わりが `p` の次の block なら合わせ、さもなければ `bp` を `p` の次の前に置く。 -/
def freeJoinUp (h : Heap) (bp p : Nat) : Heap :=
  if bp + sizeofHeader * (h.hdr bp).size = (h.hdr p).ptr then
    let h := h.setSize bp ((h.hdr bp).size + (h.hdr (h.hdr p).ptr).size)
    h.setPtr bp (h.hdr (h.hdr p).ptr).ptr
  else h.setPtr bp (h.hdr p).ptr

/-- `free` の後半の `if`：`p` の終わりが `bp` なら合わせ、さもなければ `p` の次を `bp` にする。 -/
def freeJoinDown (h : Heap) (bp p : Nat) : Heap :=
  if p + sizeofHeader * (h.hdr p).size = bp then
    let h := h.setSize p ((h.hdr p).size + (h.hdr bp).size)
    h.setPtr p (h.hdr bp).ptr
  else h.setPtr p bp

/-- 探索の後の `free`：二つの `if` と `freep = p`。 -/
def freeJoin (h : Heap) (bp p : Nat) : Heap := { freeJoinDown (freeJoinUp h bp p) bp p with freep := p }

/-- `free` は探索とつなぎ替え。 -/
theorem free_eq (fuel : Nat) (h : Heap) (ap : Nat) :
    free fuel h ap =
      (freeSearch h (ap - sizeofHeader) fuel h.freep).map (freeJoin h (ap - sizeofHeader)) := by
  simp only [free]
  cases freeSearch h (ap - sizeofHeader) fuel h.freep <;> rfl

section Join

variable {h : Heap} {bp p x : Nat}

theorem freeJoinUp_of_ne (hx : x ≠ bp) : (freeJoinUp h bp p).hdr x = h.hdr x := by
  unfold freeJoinUp
  split
  · rw [Heap.setPtr_of_ne _ _ hx, Heap.setSize_of_ne _ _ hx]
  · rw [Heap.setPtr_of_ne _ _ hx]

theorem freeJoinUp_self_of_up (hU : bp + h.lenAt bp = h.ptrAt p) :
    (freeJoinUp h bp p).hdr bp = ⟨h.ptrAt (h.ptrAt p), (h.hdr bp).size + (h.hdr (h.ptrAt p)).size⟩ := by
  have hU' : bp + sizeofHeader * (h.hdr bp).size = (h.hdr p).ptr := hU
  simp only [freeJoinUp, hU', if_true]
  ext <;> simp [Heap.ptrAt]

theorem freeJoinUp_self_of_not_up (hU : ¬bp + h.lenAt bp = h.ptrAt p) :
    (freeJoinUp h bp p).hdr bp = ⟨h.ptrAt p, (h.hdr bp).size⟩ := by
  have hU' : ¬bp + sizeofHeader * (h.hdr bp).size = (h.hdr p).ptr := hU
  simp only [freeJoinUp, hU', if_false]
  ext <;> simp [Heap.setPtr, Heap.ptrAt]

theorem freeJoinDown_of_ne (hx : x ≠ p) : (freeJoinDown h bp p).hdr x = h.hdr x := by
  unfold freeJoinDown
  split
  · rw [Heap.setPtr_of_ne _ _ hx, Heap.setSize_of_ne _ _ hx]
  · rw [Heap.setPtr_of_ne _ _ hx]

theorem freeJoinDown_self_of_down (hD : p + h.lenAt p = bp) :
    (freeJoinDown h bp p).hdr p = ⟨h.ptrAt bp, (h.hdr p).size + (h.hdr bp).size⟩ := by
  have hD' : p + sizeofHeader * (h.hdr p).size = bp := hD
  simp only [freeJoinDown, hD', if_true]
  ext <;> simp [Heap.ptrAt]

theorem freeJoinDown_self_of_not_down (hD : ¬p + h.lenAt p = bp) :
    (freeJoinDown h bp p).hdr p = ⟨bp, (h.hdr p).size⟩ := by
  have hD' : ¬p + sizeofHeader * (h.hdr p).size = bp := hD
  simp only [freeJoinDown, hD', if_false]
  ext <;> simp [Heap.setPtr]

@[simp] theorem freeJoinUp_base : (freeJoinUp h bp p).base = h.base := by
  unfold freeJoinUp; split <;> rfl

@[simp] theorem freeJoinUp_brk : (freeJoinUp h bp p).brk = h.brk := by
  unfold freeJoinUp; split <;> rfl

@[simp] theorem freeJoinUp_top : (freeJoinUp h bp p).top = h.top := by
  unfold freeJoinUp; split <;> rfl

@[simp] theorem freeJoinDown_base : (freeJoinDown h bp p).base = h.base := by
  unfold freeJoinDown; split <;> rfl

@[simp] theorem freeJoinDown_brk : (freeJoinDown h bp p).brk = h.brk := by
  unfold freeJoinDown; split <;> rfl

@[simp] theorem freeJoinDown_top : (freeJoinDown h bp p).top = h.top := by
  unfold freeJoinDown; split <;> rfl

@[simp] theorem freeJoin_base : (freeJoin h bp p).base = h.base := by simp [freeJoin]
@[simp] theorem freeJoin_brk : (freeJoin h bp p).brk = h.brk := by simp [freeJoin]
@[simp] theorem freeJoin_top : (freeJoin h bp p).top = h.top := by simp [freeJoin]
@[simp] theorem freeJoin_freep : (freeJoin h bp p).freep = p := rfl

/-- つなぎ替えは `bp` と `p` の header のほかは変えない。 -/
theorem freeJoin_of_ne (hx : x ≠ bp) (hx' : x ≠ p) : (freeJoin h bp p).hdr x = h.hdr x := by
  simp only [freeJoin]
  rw [freeJoinDown_of_ne hx', freeJoinUp_of_ne hx]

theorem freeJoin_ptrAt_of_ne (hx : x ≠ bp) (hx' : x ≠ p) : (freeJoin h bp p).ptrAt x = h.ptrAt x := by
  simp only [Heap.ptrAt, freeJoin_of_ne hx hx']

theorem freeJoin_lenAt_of_ne (hx : x ≠ bp) (hx' : x ≠ p) : (freeJoin h bp p).lenAt x = h.lenAt x := by
  simp only [Heap.lenAt, freeJoin_of_ne hx hx']

/-- 返す block の header は、前半の `if` の後のまま。 -/
theorem freeJoin_self (hp : p ≠ bp) : (freeJoin h bp p).hdr bp = (freeJoinUp h bp p).hdr bp := by
  simp only [freeJoin]
  rw [freeJoinDown_of_ne (Ne.symm hp)]

/-- 前とつながなければ、`p` の次は `bp` になり、大きさは変わらない。 -/
theorem freeJoin_pred_of_not_down (hp : p ≠ bp) (hD : ¬p + h.lenAt p = bp) :
    (freeJoin h bp p).hdr p = ⟨bp, (h.hdr p).size⟩ := by
  have hD' : ¬p + (freeJoinUp h bp p).lenAt p = bp := by
    rwa [Heap.lenAt, freeJoinUp_of_ne hp]
  simp only [freeJoin]
  rw [freeJoinDown_self_of_not_down hD', freeJoinUp_of_ne hp]

/-- 前とつなげば、`p` は `bp` の次を受け継ぎ、大きさは `bp` の分だけ増える。 -/
theorem freeJoin_pred_of_down (hp : p ≠ bp) (hD : p + h.lenAt p = bp) :
    (freeJoin h bp p).hdr p =
      ⟨(freeJoinUp h bp p).ptrAt bp, (h.hdr p).size + ((freeJoinUp h bp p).hdr bp).size⟩ := by
  have hD' : p + (freeJoinUp h bp p).lenAt p = bp := by
    rwa [Heap.lenAt, freeJoinUp_of_ne hp]
  simp only [freeJoin]
  rw [freeJoinDown_self_of_down hD', freeJoinUp_of_ne hp]

end Join

/-- `freep` か、その次の空き block が、`n` 単位以上ある。 -/
def FitsNear (h : Heap) (n : Nat) : Prop :=
  n ≤ (h.hdr h.freep).size ∨ n ≤ (h.hdr (h.ptrAt h.freep)).size

/-! ## `free` の四つの場合

返す block `a` のすぐ前とすぐ後ろが空きかどうかで、`free` は四通りに block の列と輪を変える。
どの場合も、輪の `p` より前の節点と、`a` より後ろの空き block の header は変わらない。
-/

section Cases

variable {h : Heap} {h0 a c d p : Nat} {pre post : List Blk} {L : List Nat}

/-- `p` より前の輪の節点は、`a` でも `p` でもない。 -/
theorem HeapInv.mem_pre_ne (hv : HeapInv h h0 (pre ++ ⟨a, false⟩ :: post))
    (hL : h.base :: frees pre = L ++ [p]) {y : Nat} (hy : y ∈ L) : y ≠ a ∧ y ≠ p := by
  have hya : y < a := hv.lt_of_mem_pre hL (List.mem_append_left [p] hy)
  have hnd := hv.nodup
  rw [cycle_split hL] at hnd
  exact ⟨Nat.ne_of_lt hya, (List.nodup_append.mp hnd).2.2 y hy p List.mem_cons_self⟩

/-- `a` より後ろの空き block は、`a` でも `p` でもない。 -/
theorem HeapInv.mem_post_ne (hv : HeapInv h h0 (pre ++ ⟨a, false⟩ :: post))
    (hL : h.base :: frees pre = L ++ [p]) {y : Nat} (hy : y ∈ frees post) : y ≠ a ∧ y ≠ p := by
  have hpa : p < a := hv.lt_of_mem_pre hL (by simp)
  have hay := hv.lt_of_mem_post ((frees_sublist post).subset hy)
  constructor <;> omega

/-- 空き block の後ろは隣り合わず、すぐ後ろは使用中。 -/
theorem coalesced_cons_free {c : Nat} {post : List Blk} (h : Coalesced (⟨c, true⟩ :: post)) :
    Coalesced post ∧ ∀ t ∈ post.head?, t.free = false := by
  have := (@coalesced_mid_free [] post c).mp (by simpa using h)
  exact ⟨this.2.1, this.2.2.2⟩

/-- 空き block の前は隣り合わず、すぐ前は使用中。 -/
theorem coalesced_snoc_free {c : Nat} {pre : List Blk} (h : Coalesced (pre ++ [⟨c, true⟩])) :
    Coalesced pre ∧ ∀ t ∈ pre.getLast?, t.free = false := by
  have := (@coalesced_mid_free pre [] c).mp h
  exact ⟨this.1, this.2.2.1⟩

/-- 最後が空きでない列の最後の block は使用中。 -/
theorem getLast_used {pre : List Blk} (hD : ¬∃ c pre', pre = pre' ++ [⟨c, true⟩]) :
    ∀ t ∈ pre.getLast?, t.free = false := by
  intro ⟨c, f⟩ ht
  obtain ⟨pre', rfl⟩ : ∃ pre', pre = pre' ++ [⟨c, f⟩] := by
    rcases pre.eq_nil_or_concat' with rfl | ⟨pre', b, rfl⟩
    · simp at ht
    · obtain rfl : b = ⟨c, f⟩ := by simpa using ht
      exact ⟨pre', rfl⟩
  cases f with
  | false => rfl
  | true => exact absurd ⟨c, pre', rfl⟩ hD

/-- 先頭が空きでない列の先頭の block は使用中。 -/
theorem head_used {post : List Blk} (hU : ¬∃ c post', post = ⟨c, true⟩ :: post') :
    ∀ t ∈ post.head?, t.free = false := by
  intro ⟨c, f⟩ ht
  obtain ⟨post', rfl⟩ : ∃ post', post = ⟨c, f⟩ :: post' := by
    cases post with
    | nil => simp at ht
    | cons b post' =>
      obtain rfl : b = ⟨c, f⟩ := by simpa using ht
      exact ⟨post', rfl⟩
  cases f with
  | false => rfl
  | true => exact absurd ⟨c, post', rfl⟩ hU

/-- 輪の `a` より後ろを、最初の節点とその後ろに分ける。最後は `base` に戻る。 -/
theorem exists_cons_eq (l : List Nat) (b : Nat) : ∃ s R, l ++ [b] = s :: R := by
  cases l with
  | nil => exact ⟨b, [], rfl⟩
  | cons s R => exact ⟨s, R ++ [b], rfl⟩

/-- 輪の最後の `base` の前までは、`a` より後ろの空き block。 -/
theorem dropLast_of_cons_eq {l R : List Nat} {b s : Nat} (hsR : l ++ [b] = s :: R) :
    (s :: R).dropLast = l := by
  rw [← hsR, List.dropLast_concat]

/--
つなぎ替えの後の heap の形は、block の列、輪、隣り合わないことの三つを確かめればよい。
`base` の大きさは 0 のまま：`p = base` なら前とはつながらない。
-/
theorem HeapInv.freeJoin_mk (hv : HeapInv h h0 (pre ++ ⟨a, false⟩ :: post))
    (hL : h.base :: frees pre = L ++ [p]) {ts' : List Blk} (hp : p ∈ h.base :: frees ts')
    (htiled : Tiled (freeJoin h a p).lenAt h0 (ts'.map Blk.addr) h.brk)
    (hcyc : Steps (freeJoin h a p).ptrAt (h.base :: frees ts' ++ [h.base])) (hco : Coalesced ts') :
    HeapInv (freeJoin h a p) h0 ts' := by
  have hne : h.freep ≠ 0 := hv.freep_ne (by simp)
  have hbase : h.base < a := hv.lt_of_mem_pre hL (by rw [← hL]; exact List.mem_cons_self)
  have hp0 : 0 < p := hv.cycle_pos (x := p) (by rw [cycle_split hL]; simp)
  refine
    { base_pos := by simpa using hv.base_pos
      base_lt := by simpa using hv.base_lt
      tiled := by simpa using htiled
      brk_le := by simpa using hv.brk_le
      empty := fun hz => absurd hz (by simpa using Nat.ne_of_gt hp0)
      base_size := fun _ => ?_
      cycle := fun _ => by simpa using hcyc
      freep_mem := fun _ => by simpa using hp
      coalesced := hco }
  have hb := hv.base_size hne
  rw [freeJoin_base]
  by_cases hbp : h.base = p
  · -- `p = base` の block の長さは 0 なので、前とはつながらない
    subst hbp
    have hD : ¬h.base + h.lenAt h.base = a := by
      rw [hv.lenAt_base hne]
      omega
    simpa [freeJoin_pred_of_not_down (Nat.ne_of_lt hbase) hD] using hb
  · simpa [freeJoin_of_ne (Nat.ne_of_lt hbase) hbp] using hb

/-- block `t` のほかの block の番地は、`t` の番地と異なる。 -/
theorem HeapInv.addr_ne {l₁ l₂ : List Blk} {t : Blk} (hv : HeapInv h h0 (l₁ ++ t :: l₂)) {w : Nat}
    (hw : w ∈ l₁.map Blk.addr ++ l₂.map Blk.addr) : w ≠ t.addr := by
  have ht : Tiled h.lenAt h0 (l₁.map Blk.addr ++ t.addr :: l₂.map Blk.addr) h.brk := by
    simpa using hv.tiled
  have hnd : (l₁.map Blk.addr ++ t.addr :: l₂.map Blk.addr).Nodup := ht.sorted.imp Nat.ne_of_lt
  rintro rfl
  exact (List.nodup_cons.mp (List.nodup_middle.mp hnd)).1 hw

/--
**前も後ろも使用中。** `a` を `p` と `p` の次の間に入れる。block の大きさは変わらない。
-/
theorem HeapInv.free_none (hv : HeapInv h h0 (pre ++ ⟨a, false⟩ :: post))
    (hL : h.base :: frees pre = L ++ [p]) (hU : ¬∃ c post', post = ⟨c, true⟩ :: post')
    (hD : ¬∃ c pre', pre = pre' ++ [⟨c, true⟩]) :
    HeapInv (freeJoin h a p) h0 (pre ++ ⟨a, true⟩ :: post) ∧ FitsNear (freeJoin h a p) (h.hdr a).size := by
  have hpa : p ≠ a := Nat.ne_of_lt (hv.lt_of_mem_pre hL (by simp))
  -- つなぎ替えの後の `a` と `p` の header
  have hp' := freeJoin_pred_of_not_down hpa (mt (hv.lower_iff hL).mp hD)
  have ha' : (freeJoin h a p).hdr a = ⟨h.ptrAt p, (h.hdr a).size⟩ := by
    rw [freeJoin_self hpa, freeJoinUp_self_of_not_up (mt (hv.upper_iff hL).mp hU)]
  -- 大きさはどこも変わらない
  have hsize : ∀ x, (freeJoin h a p).lenAt x = h.lenAt x := by
    intro x
    by_cases hxa : x = a
    · subst hxa
      simp [Heap.lenAt, ha']
    by_cases hxp : x = p
    · subst hxp
      simp [Heap.lenAt, hp']
    exact freeJoin_lenAt_of_ne hxa hxp
  -- 輪：`p` と次の節点 `s` の間に `a` を入れる
  obtain ⟨s, R, hsR⟩ := exists_cons_eq (frees post) h.base
  have hold : Steps h.ptrAt (L ++ p :: [] ++ s :: R) := by
    have hcyc := hv.cycle (hv.freep_ne (by simp))
    rw [cycle_split hL] at hcyc
    rw [← hsR]
    simpa using hcyc
  have hs : h.ptrAt p = s := hold.next_eq L p s R (by simp)
  have hnew : Steps (freeJoin h a p).ptrAt (L ++ p :: [a] ++ s :: R) := by
    refine hold.splice ?_ (fun y hy => ?_) (fun y hy => ?_)
    · simpa [Heap.ptrAt, hp', ha'] using hs
    · obtain ⟨h₁, h₂⟩ := hv.mem_pre_ne hL hy
      exact freeJoin_ptrAt_of_ne h₁ h₂
    · rw [dropLast_of_cons_eq hsR] at hy
      obtain ⟨h₁, h₂⟩ := hv.mem_post_ne hL hy
      exact freeJoin_ptrAt_of_ne h₁ h₂
  have e : h.base :: frees (pre ++ ⟨a, true⟩ :: post) ++ [h.base] = L ++ p :: [a] ++ s :: R := by
    calc h.base :: frees (pre ++ ⟨a, true⟩ :: post) ++ [h.base]
        = (h.base :: frees pre) ++ a :: (frees post ++ [h.base]) := by simp
      _ = L ++ p :: [a] ++ s :: R := by rw [hL, hsR]; simp
  have hco := coalesced_mid_used.mp hv.coalesced
  refine ⟨hv.freeJoin_mk hL ?_ ?_ (by rw [e]; exact hnew)
    (coalesced_mid_free.mpr ⟨hco.1, hco.2, getLast_used hD, head_used hU⟩), ?_⟩
  · rw [frees_append, frees_cons_free, ← List.cons_append, hL]
    simp
  · simpa using hv.tiled.congr fun x _ => hsize x
  · -- 返した block は `p` の次にある
    right
    simp [Heap.ptrAt, hp', ha']

/--
**後ろが空き。** `a` と後ろの空き block `c` を合わせ、輪の `c` を `a` に替える。
-/
theorem HeapInv.free_up (hv : HeapInv h h0 (pre ++ ⟨a, false⟩ :: ⟨c, true⟩ :: post))
    (hL : h.base :: frees pre = L ++ [p]) (hD : ¬∃ c pre', pre = pre' ++ [⟨c, true⟩]) :
    HeapInv (freeJoin h a p) h0 (pre ++ ⟨a, true⟩ :: post) ∧ FitsNear (freeJoin h a p) (h.hdr a).size := by
  have hpa : p ≠ a := Nat.ne_of_lt (hv.lt_of_mem_pre hL (by simp))
  have hc : h.ptrAt p = c := by simpa using hv.ptrAt_pred hL
  have hU : a + h.lenAt a = h.ptrAt p := (hv.upper_iff hL).mpr ⟨c, post, rfl⟩
  -- `a` は `c` の次と、二つの大きさの和を持つ
  have hp' := freeJoin_pred_of_not_down hpa (mt (hv.lower_iff hL).mp hD)
  have ha' : (freeJoin h a p).hdr a = ⟨h.ptrAt c, (h.hdr a).size + (h.hdr c).size⟩ := by
    rw [freeJoin_self hpa, freeJoinUp_self_of_up hU, hc]
  have hlen : ∀ x, x ≠ a → (freeJoin h a p).lenAt x = h.lenAt x := by
    intro x hxa
    by_cases hxp : x = p
    · subst hxp
      simp [Heap.lenAt, hp']
    exact freeJoin_lenAt_of_ne hxa hxp
  -- 輪：`p` の後ろの `c` を `a` に替える
  obtain ⟨s, R, hsR⟩ := exists_cons_eq (frees post) h.base
  have hold : Steps h.ptrAt (L ++ p :: [c] ++ s :: R) := by
    have hcyc := hv.cycle (hv.freep_ne (by simp))
    rw [cycle_split hL] at hcyc
    rw [← hsR]
    simpa using hcyc
  have hcs : h.ptrAt c = s := hold.next_eq (L ++ [p]) c s R (by simp)
  have hnew : Steps (freeJoin h a p).ptrAt (L ++ p :: [a] ++ s :: R) := by
    refine hold.splice ?_ (fun y hy => ?_) (fun y hy => ?_)
    · simpa [Heap.ptrAt, hp', ha'] using hcs
    · obtain ⟨h₁, h₂⟩ := hv.mem_pre_ne hL hy
      exact freeJoin_ptrAt_of_ne h₁ h₂
    · rw [dropLast_of_cons_eq hsR] at hy
      obtain ⟨h₁, h₂⟩ := hv.mem_post_ne hL (y := y) (by simp [hy])
      exact freeJoin_ptrAt_of_ne h₁ h₂
  have e : h.base :: frees (pre ++ ⟨a, true⟩ :: post) ++ [h.base] = L ++ p :: [a] ++ s :: R := by
    calc h.base :: frees (pre ++ ⟨a, true⟩ :: post) ++ [h.base]
        = (h.base :: frees pre) ++ a :: (frees post ++ [h.base]) := by simp
      _ = L ++ p :: [a] ++ s :: R := by rw [hL, hsR]; simp
  -- block の列：`a` と `c` を合わせる
  have htiled : Tiled (freeJoin h a p).lenAt h0 (pre.map Blk.addr ++ a :: post.map Blk.addr) h.brk := by
    have ht : Tiled h.lenAt h0 (pre.map Blk.addr ++ a :: c :: post.map Blk.addr) h.brk := by
      simpa using hv.tiled
    refine ht.merge (by simp [Heap.lenAt, ha', Nat.mul_add]) fun w hw => hlen w (hv.addr_ne ?_)
    simp only [List.mem_append, List.map_cons, List.mem_cons] at hw ⊢
    tauto
  have hco := coalesced_mid_used.mp hv.coalesced
  have hco' := coalesced_cons_free hco.2
  refine ⟨hv.freeJoin_mk hL ?_ (by simpa using htiled) (by rw [e]; exact hnew)
    (coalesced_mid_free.mpr ⟨hco.1, hco'.1, getLast_used hD, hco'.2⟩), ?_⟩
  · rw [frees_append, frees_cons_free, ← List.cons_append, hL]
    simp
  · -- 合わせた block は `p` の次にある
    right
    simp [Heap.ptrAt, hp', ha']

/--
**前が空き。** 探索が止まる前の空き block `c` が `a` を取り込む。輪の節点と `ptr` は変わらない。
-/
theorem HeapInv.free_down (hv : HeapInv h h0 ((pre ++ [⟨c, true⟩]) ++ ⟨a, false⟩ :: post))
    (hU : ¬∃ d post', post = ⟨d, true⟩ :: post') :
    HeapInv (freeJoin h a c) h0 (pre ++ ⟨c, true⟩ :: post) ∧ FitsNear (freeJoin h a c) (h.hdr a).size := by
  have hL : h.base :: frees (pre ++ [⟨c, true⟩]) = (h.base :: frees pre) ++ [c] := by simp
  have hv' : HeapInv h h0 (pre ++ ⟨c, true⟩ :: ⟨a, false⟩ :: post) := by simpa using hv
  have hca : c ≠ a := Nat.ne_of_lt (hv.lt_of_mem_pre hL (by simp))
  have hD : c + h.lenAt c = a := (hv.lower_iff hL).mpr ⟨c, pre, rfl⟩
  -- `c` は `a` の分だけ大きくなり、次は元のまま
  have hup : (freeJoinUp h a c).hdr a = ⟨h.ptrAt c, (h.hdr a).size⟩ :=
    freeJoinUp_self_of_not_up (mt (hv.upper_iff hL).mp hU)
  have hc' : (freeJoin h a c).hdr c = ⟨h.ptrAt c, (h.hdr c).size + (h.hdr a).size⟩ := by
    rw [freeJoin_pred_of_down hca hD, Heap.ptrAt, hup]
  -- 輪：同じ節点の列を、`c` の `ptr` も変えずにたどる
  have hcyc := hv.cycle (hv.freep_ne (by simp))
  rw [cycle_split hL] at hcyc
  have hnew : Steps (freeJoin h a c).ptrAt ((h.base :: frees pre) ++ c :: frees post ++ [h.base]) := by
    refine hcyc.congr fun y hy => ?_
    rw [List.dropLast_concat] at hy
    rcases List.mem_append.mp hy with hy | hy
    · obtain ⟨h₁, h₂⟩ := hv.mem_pre_ne hL hy
      exact freeJoin_ptrAt_of_ne h₁ h₂
    · rcases List.mem_cons.mp hy with rfl | hy
      · simp [Heap.ptrAt, hc']
      · obtain ⟨h₁, h₂⟩ := hv.mem_post_ne hL hy
        exact freeJoin_ptrAt_of_ne h₁ h₂
  -- block の列：`c` と `a` を合わせる
  have htiled : Tiled (freeJoin h a c).lenAt h0 (pre.map Blk.addr ++ c :: post.map Blk.addr) h.brk := by
    have ht : Tiled h.lenAt h0 (pre.map Blk.addr ++ c :: a :: post.map Blk.addr) h.brk := by
      simpa using hv.tiled
    refine ht.merge (by simp [Heap.lenAt, hc', Nat.mul_add]) fun w hw => freeJoin_lenAt_of_ne ?_ ?_
    · refine hv.addr_ne ?_
      simp only [List.map_append, List.map_cons, List.map_nil, List.mem_append, List.mem_cons] at hw ⊢
      tauto
    · refine hv'.addr_ne ?_
      simp only [List.map_cons, List.mem_append, List.mem_cons] at hw ⊢
      tauto
  have hco := coalesced_mid_used.mp hv.coalesced
  have hco' := coalesced_snoc_free hco.1
  refine ⟨hv.freeJoin_mk hL (by simp) (by simpa using htiled) (by simpa using hnew)
    (coalesced_mid_free.mpr ⟨hco'.1, hco.2, hco'.2, head_used hU⟩), ?_⟩
  -- 合わせた block は `c` 自身
  left
  simp [hc']

/--
**前も後ろも空き。** 前の空き block `c` が `a` と後ろの空き block `d` を取り込み、輪から `d` を外す。
-/
theorem HeapInv.free_both
    (hv : HeapInv h h0 ((pre ++ [⟨c, true⟩]) ++ ⟨a, false⟩ :: ⟨d, true⟩ :: post)) :
    HeapInv (freeJoin h a c) h0 (pre ++ ⟨c, true⟩ :: post) ∧ FitsNear (freeJoin h a c) (h.hdr a).size := by
  have hL : h.base :: frees (pre ++ [⟨c, true⟩]) = (h.base :: frees pre) ++ [c] := by simp
  have hv' : HeapInv h h0 (pre ++ ⟨c, true⟩ :: ⟨a, false⟩ :: ⟨d, true⟩ :: post) := by simpa using hv
  have hca : c ≠ a := Nat.ne_of_lt (hv.lt_of_mem_pre hL (by simp))
  have hD : c + h.lenAt c = a := (hv.lower_iff hL).mpr ⟨c, pre, rfl⟩
  have hcd : h.ptrAt c = d := by simpa using hv.ptrAt_pred hL
  have hU : a + h.lenAt a = h.ptrAt c := (hv.upper_iff hL).mpr ⟨d, post, rfl⟩
  -- `a` は `d` を取り込み、`c` は `a` を取り込む
  have hup : (freeJoinUp h a c).hdr a = ⟨h.ptrAt d, (h.hdr a).size + (h.hdr d).size⟩ := by
    rw [freeJoinUp_self_of_up hU, hcd]
  have hc' : (freeJoin h a c).hdr c = ⟨h.ptrAt d, (h.hdr c).size + ((h.hdr a).size + (h.hdr d).size)⟩ := by
    rw [freeJoin_pred_of_down hca hD, Heap.ptrAt, hup]
  -- 輪：`c` の後ろの `d` を外す
  obtain ⟨s, R, hsR⟩ := exists_cons_eq (frees post) h.base
  have hold : Steps h.ptrAt ((h.base :: frees pre) ++ c :: [d] ++ s :: R) := by
    have hcyc := hv.cycle (hv.freep_ne (by simp))
    rw [cycle_split hL] at hcyc
    rw [← hsR]
    simpa using hcyc
  have hds : h.ptrAt d = s := hold.next_eq (h.base :: frees pre ++ [c]) d s R (by simp)
  have hnew : Steps (freeJoin h a c).ptrAt ((h.base :: frees pre) ++ c :: [] ++ s :: R) := by
    refine hold.splice ?_ (fun y hy => ?_) (fun y hy => ?_)
    · simpa [Heap.ptrAt, hc'] using hds
    · obtain ⟨h₁, h₂⟩ := hv.mem_pre_ne hL hy
      exact freeJoin_ptrAt_of_ne h₁ h₂
    · rw [dropLast_of_cons_eq hsR] at hy
      obtain ⟨h₁, h₂⟩ := hv.mem_post_ne hL (y := y) (by simp [hy])
      exact freeJoin_ptrAt_of_ne h₁ h₂
  have e : h.base :: frees (pre ++ ⟨c, true⟩ :: post) ++ [h.base] =
      (h.base :: frees pre) ++ c :: [] ++ s :: R := by
    calc h.base :: frees (pre ++ ⟨c, true⟩ :: post) ++ [h.base]
        = (h.base :: frees pre) ++ c :: (frees post ++ [h.base]) := by simp
      _ = (h.base :: frees pre) ++ c :: [] ++ s :: R := by rw [hsR]; simp
  -- block の列：まず `a` と `d` を、次に `c` と `a` を合わせる
  have ht : Tiled h.lenAt h0 ((pre.map Blk.addr ++ [c]) ++ a :: d :: post.map Blk.addr) h.brk := by
    simpa using hv.tiled
  have ht₁ : Tiled (freeJoinUp h a c).lenAt h0 ((pre.map Blk.addr ++ [c]) ++ a :: post.map Blk.addr)
      h.brk := by
    refine ht.merge (by simp [Heap.lenAt, hup, Nat.mul_add]) fun w hw => ?_
    have hwa : w ≠ a := by
      refine hv.addr_ne ?_
      simp only [List.map_append, List.map_cons, List.map_nil, List.mem_append, List.mem_cons] at hw ⊢
      tauto
    simp only [Heap.lenAt, freeJoinUp_of_ne hwa]
  have ht₂ : Tiled (freeJoin h a c).lenAt h0 (pre.map Blk.addr ++ c :: post.map Blk.addr) h.brk := by
    replace ht₁ : Tiled (freeJoinUp h a c).lenAt h0 (pre.map Blk.addr ++ c :: a :: post.map Blk.addr)
        h.brk := by simpa using ht₁
    refine ht₁.merge ?_ fun w hw => ?_
    · simp [Heap.lenAt, hc', freeJoinUp_of_ne hca, hup, Nat.mul_add]
    · have hwa : w ≠ a := by
        refine hv.addr_ne ?_
        simp only [List.map_append, List.map_cons, List.map_nil, List.mem_append, List.mem_cons] at hw ⊢
        tauto
      have hwc : w ≠ c := by
        refine hv'.addr_ne ?_
        simp only [List.map_cons, List.mem_append, List.mem_cons] at hw ⊢
        tauto
      rw [freeJoin_lenAt_of_ne hwa hwc, Heap.lenAt, Heap.lenAt, freeJoinUp_of_ne hwa]
  have hco := coalesced_mid_used.mp hv.coalesced
  have hpre := coalesced_snoc_free hco.1
  have hpost := coalesced_cons_free hco.2
  refine ⟨hv.freeJoin_mk hL (by simp) (by simpa using ht₂) (by rw [e]; exact hnew)
    (coalesced_mid_free.mpr ⟨hpre.1, hpost.1, hpre.2, hpost.2⟩), ?_⟩
  -- 合わせた block は `c` 自身
  left
  simp only [freeJoin_freep, hc']
  omega

end Cases

/-! ## `free` の全体 -/

/--
使用中の block `a` を返した後の heap：形は保たれ、`a` の pointer は使用中のものから外れ、ほかの
使用中の block の大きさは変わらず、返した block の単位は `freep` かその次の block にある。
break、上限、`base` は変わらない。
-/
structure Freed (h h' : Heap) (h0 a : Nat) (ts ts' : List Blk) : Prop where
  inv : HeapInv h' h0 ts'
  used_perm : (used ts).Perm ((a + sizeofHeader) :: used ts')
  size_used : ∀ q ∈ used ts', (h'.hdr (q - sizeofHeader)).size = (h.hdr (q - sizeofHeader)).size
  fits : FitsNear h' (h.hdr a).size
  freep_pos : 0 < h'.freep
  brk_eq : h'.brk = h.brk
  top_eq : h'.top = h.top
  base_eq : h'.base = h.base

section Spec

variable {h : Heap} {h0 a p : Nat} {pre post : List Blk} {L : List Nat}

/-- 使用中の block の `free` の探索は、止まれば `p` を返す。 -/
theorem HeapInv.freeSearch_eq (hv : HeapInv h h0 (pre ++ ⟨a, false⟩ :: post))
    (hL : h.base :: frees pre = L ++ [p]) {fuel q : Nat} (hs : freeSearch h a fuel h.freep = .ok q) :
    q = p := by
  have hne : h.freep ≠ 0 := hv.freep_ne (by simp)
  have hcyc := hv.cycle hne
  obtain ⟨hq, hb⟩ := freeSearch_ok (fun x hx => hcyc.next_mem hx) (hv.freep_mem hne) hs
  exact (hv.between_iff hL hq).mp hb

/-- 空き block の数より多い fuel で、探索は `freep` から輪を回って `p` に着く。 -/
theorem HeapInv.freeSearch_of_lt (hv : HeapInv h h0 (pre ++ ⟨a, false⟩ :: post))
    (hL : h.base :: frees pre = L ++ [p]) {fuel : Nat}
    (hfuel : (frees (pre ++ ⟨a, false⟩ :: post)).length < fuel) :
    freeSearch h a fuel h.freep = .ok p := by
  have hne : h.freep ≠ 0 := hv.freep_ne (by simp)
  have hp : p ∈ h.base :: frees (pre ++ ⟨a, false⟩ :: post) := by
    rw [cycle_split hL]
    simp
  obtain ⟨d, hd, hdp, hbefore⟩ := (hv.cycle hne).reach_cycle hv.nodup (hv.freep_mem hne) hp
  -- `p` で初めて止まる条件を満たす
  have hstop : Between (h.ptrAt^[d] h.freep) (h.ptrAt (h.ptrAt^[d] h.freep)) a := by
    rw [hdp]
    exact (hv.between_iff hL hp).mpr rfl
  have hskip : ∀ j < d, ¬Between (h.ptrAt^[j] h.freep) (h.ptrAt (h.ptrAt^[j] h.freep)) a := by
    intro j hj
    obtain ⟨hm, hne'⟩ := hbefore j hj
    exact mt (hv.between_iff hL hm).mp hne'
  rw [loop_iterate (fun k x => freeSearch_succ h a k x) hstop hskip (by omega), hdp]

/-- 四つの場合に共通の、`free` の後の heap の事実。 -/
theorem HeapInv.freed_of (hv : HeapInv h h0 (pre ++ ⟨a, false⟩ :: post))
    (hL : h.base :: frees pre = L ++ [p]) {ts' : List Blk}
    (hres : HeapInv (freeJoin h a p) h0 ts' ∧ FitsNear (freeJoin h a p) (h.hdr a).size)
    (hused : used ts' = used pre ++ used post) :
    Freed h (freeJoin h a p) h0 a (pre ++ ⟨a, false⟩ :: post) ts' := by
  have hp : p ∈ h.base :: frees (pre ++ ⟨a, false⟩ :: post) := by
    rw [cycle_split hL]
    simp
  refine ⟨hres.1, ?_, fun q hq => ?_, hres.2, hv.cycle_pos hp, freeJoin_brk, freeJoin_top, freeJoin_base⟩
  · rw [hused, used_append, used_cons_used]
    exact List.perm_middle
  · -- 使用中の block は `a` でも `p` でもないので、header は変わらない
    rw [hused, ← used_append] at hq
    obtain ⟨b, hb, rfl⟩ := mem_used.mp hq
    have hb' : ⟨b, false⟩ ∈ pre ++ ⟨a, false⟩ :: post := by
      simp only [List.mem_append, List.mem_cons] at hb ⊢
      tauto
    have hba : b ≠ a := by
      refine hv.addr_ne ?_
      simp only [List.mem_append] at hb ⊢
      rcases hb with hb | hb
      · exact Or.inl (List.mem_map_of_mem hb)
      · exact Or.inr (List.mem_map_of_mem hb)
    rw [Nat.add_sub_cancel, freeJoin_of_ne hba (hv.used_ne hb' hp)]

/--
**`free` は heap の形を保つ。** 使用中の block `a` の pointer `a + 8` の `free` が終われば、
後の heap は `Freed` のすべてを満たす。前と後ろの block が空きかどうかの四通りを、それぞれの場合の
lemma で確かめる。
-/
theorem free_spec {fuel : Nat} {h h' : Heap} {h0 a : Nat} {pre post : List Blk}
    (hv : HeapInv h h0 (pre ++ ⟨a, false⟩ :: post)) (hf : free fuel h (a + sizeofHeader) = .ok h') :
    ∃ ts', Freed h h' h0 a (pre ++ ⟨a, false⟩ :: post) ts' := by
  obtain ⟨L, p, hL⟩ := exists_eq_snoc h.base (frees pre)
  rw [free_eq, Nat.add_sub_cancel] at hf
  cases hs : freeSearch h a fuel h.freep with
  | error e =>
    rw [hs] at hf
    cases hf
  | ok q =>
    rw [hs] at hf
    obtain rfl : freeJoin h a q = h' := by simpa [Except.map] using hf
    obtain rfl := hv.freeSearch_eq hL hs
    by_cases hU : ∃ c post', post = ⟨c, true⟩ :: post'
    · obtain ⟨c, post', rfl⟩ := hU
      by_cases hD : ∃ c pre', pre = pre' ++ [⟨c, true⟩]
      · -- 前も後ろも空き
        obtain ⟨d, pre', rfl⟩ := hD
        obtain rfl : q = d := by
          have e : (h.base :: frees pre') ++ [d] = L ++ [q] := by simpa using hL
          exact List.singleton_inj.mp (List.append_inj' e rfl).2.symm
        exact ⟨_, hv.freed_of hL hv.free_both (by simp)⟩
      · -- 後ろだけ空き
        exact ⟨_, hv.freed_of hL (hv.free_up hL hD) (by simp)⟩
    · by_cases hD : ∃ c pre', pre = pre' ++ [⟨c, true⟩]
      · -- 前だけ空き
        obtain ⟨d, pre', rfl⟩ := hD
        obtain rfl : q = d := by
          have e : (h.base :: frees pre') ++ [d] = L ++ [q] := by simpa using hL
          exact List.singleton_inj.mp (List.append_inj' e rfl).2.symm
        exact ⟨_, hv.freed_of hL (hv.free_down hU) (by simp)⟩
      · -- 前も後ろも使用中
        exact ⟨_, hv.freed_of hL (hv.free_none hL hU hD) (by simp)⟩

/-- **`free` は止まる。** 空き block の数より多い fuel で、使用中の block の `free` は終わる。 -/
theorem HeapInv.free_ok (hv : HeapInv h h0 (pre ++ ⟨a, false⟩ :: post)) {fuel : Nat}
    (hfuel : (frees (pre ++ ⟨a, false⟩ :: post)).length < fuel) :
    ∃ h', free fuel h (a + sizeofHeader) = .ok h' := by
  obtain ⟨L, p, hL⟩ := exists_eq_snoc h.base (frees pre)
  refine ⟨freeJoin h a p, ?_⟩
  rw [free_eq, Nat.add_sub_cancel, hv.freeSearch_of_lt hL hfuel]
  rfl

end Spec

end Xv6.Umalloc

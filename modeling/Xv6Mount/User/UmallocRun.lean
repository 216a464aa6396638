import Xv6Mount.Infra.Trace
import Xv6Mount.User.UmallocMalloc

/-!
# `malloc` と `free` を呼ぶ user program

user program は `malloc` と `free` を好きな順に呼ぶ。`free` に渡すのは、`malloc` が返してまだ `free`
していない pointer だけである。呼び出しの列を、heap と生きている pointer の組 `Client` の上の段
`ClientStep` として述べ、最初の `malloc` の前から到達できるどの状態でも、heap の形と生きている block
の大きさが保たれることを示す。

* `Client`・`ClientInit`・`ClientStep`・`ClientReach` — user program から見た allocator
* `ClientInv` — heap は形を保ち、生きている pointer はちょうど使用中の block で、それぞれ要求した byte
  数以上を使える
* `ClientInv.of_malloc`・`ClientInv.of_free`・`clientInv_of_reach` — 各呼び出しは `ClientInv` を保つので、
  到達できるどの状態でも成り立つ
* `live_blocks_apart`・`free_list_apart` — 生きている block は互いに重ならず、空き block の輪の block
  とも重ならない。輪の block は番地で接しない
* `client_calls_return`・`malloc_null_only_when_full`・`malloc_after_free_reuses` — 呼び出しは必ず
  返り、NULL は本当に足りない時だけで、`free` した block は break を伸ばさずに使い直される

`nbytes + 16 ≤ 2^31` を越える要求は段に入れない。そこでは `sbrk` の `int` の引数が負になる。この model の
`sbrk` は失敗を返すが、xv6 の `growproc` は負の引数で heap を縮める。
-/

namespace Xv6.Umalloc

open Infra

/-! ## user program から見た allocator -/

/-- allocator の heap と、`malloc` が返してまだ `free` していない pointer と要求した byte 数。 -/
structure Client where
  heap : Heap
  live : List (Nat × UInt32)

/-- 最初の `malloc` の前：空き block の輪はなく、break は `h0` にあり、`base` はその前の静的な領域にある。 -/
structure ClientInit (h0 : Nat) (c : Client) : Prop where
  freep : c.heap.freep = 0
  base_pos : 0 < c.heap.base
  base_lt : c.heap.base < h0
  brk : c.heap.brk = h0
  top : h0 ≤ c.heap.top
  live : c.live = []

/--
user program の一回の呼び出し。`malloc` は 0 でない pointer を返せばそれを生きている pointer に加え、
`free` には生きている pointer を渡して、それを除く。
-/
inductive ClientStep : Client → Client → Prop
  | malloc {c : Client} {fuel : Nat} {nbytes : UInt32} {h' : Heap} {q : Nat} :
      nbytes.toNat + 16 ≤ 2 ^ 31 → Umalloc.malloc fuel c.heap nbytes = .ok (h', q) →
      ClientStep c ⟨h', if q = 0 then c.live else (q, nbytes) :: c.live⟩
  | free {c : Client} {fuel q : Nat} {n : UInt32} {h' : Heap} :
      (q, n) ∈ c.live → Umalloc.free fuel c.heap q = .ok h' → ClientStep c ⟨h', c.live.erase (q, n)⟩

/-- 最初の `malloc` の前の状態から、呼び出しを重ねて到達できる状態。 -/
def ClientReach (h0 : Nat) : Client → Prop := Reach (ClientInit h0) ClientStep

/-- `f` は空き block の輪の上にある：`freep` から `ptr` をたどって着く。`freep` が 0 なら輪はない。 -/
def OnFreeList (h : Heap) (f : Nat) : Prop := h.freep ≠ 0 ∧ ∃ k, h.ptrAt^[k] h.freep = f

/-! ## 使用中の block と空き block の位置 -/

section Apart

variable {h : Heap} {h0 : Nat} {ts : List Blk}

/-- 使用中の block の使える byte は、header の次からその block の終わりまでである。 -/
theorem usable_add {a : Nat} (hpos : 0 < h.lenAt a) :
    a + sizeofHeader + usable h (a + sizeofHeader) = a + h.lenAt a := by
  simp only [usable, Nat.add_sub_cancel, Heap.lenAt, sizeofHeader] at hpos ⊢
  omega

/-- 使用中の block は `h0` の後ろから break までにある。 -/
theorem HeapInv.used_bounds (hv : HeapInv h h0 ts) {q : Nat} (hq : q ∈ used ts) :
    h0 + sizeofHeader ≤ q ∧ q + usable h q ≤ h.brk := by
  obtain ⟨a, ha, rfl⟩ := mem_used.mp hq
  obtain ⟨h₁, h₂, h₃⟩ : h0 ≤ a ∧ a + h.lenAt a ≤ h.brk ∧ 0 < h.lenAt a := hv.bounds ha
  have := usable_add h₃
  omega

/-- 番地の小さい使用中の block の使える byte は、番地の大きい使用中の block の header より前で終わる。 -/
theorem HeapInv.used_apart (hv : HeapInv h h0 ts) {q q' : Nat} (hq : q ∈ used ts) (hq' : q' ∈ used ts)
    (hlt : q < q') : q + usable h q + sizeofHeader ≤ q' := by
  obtain ⟨a, ha, rfl⟩ := mem_used.mp hq
  obtain ⟨b, hb, rfl⟩ := mem_used.mp hq'
  have hab : a + h.lenAt a ≤ b :=
    hv.tiled.disjoint (List.mem_map_of_mem ha) (List.mem_map_of_mem hb) (by omega)
  have := usable_add (a := a) (hv.bounds ha).2.2
  omega

/-- 使用中の pointer は昇順に並ぶ。 -/
theorem HeapInv.used_sorted (hv : HeapInv h h0 ts) : (used ts).Pairwise (· < ·) := by
  have hs : ts.Pairwise (fun s t => s.addr < t.addr) := List.pairwise_map.mp hv.tiled.sorted
  exact List.pairwise_map.mpr ((hs.filter _).imp fun hst => Nat.add_lt_add_right hst _)

/-- 輪の上の番地は、`base` か空き block の番地である。 -/
theorem HeapInv.mem_of_onFreeList (hv : HeapInv h h0 ts) {f : Nat} (hf : OnFreeList h f) :
    f ∈ h.base :: frees ts := by
  obtain ⟨hne, k, rfl⟩ := hf
  exact (hv.cycle hne).iterate_mem (hv.freep_mem hne) k

/-- 空き block と使用中の block は重ならない。 -/
theorem HeapInv.free_used_apart (hv : HeapInv h h0 ts) {f q : Nat} (hf : f ∈ frees ts)
    (hq : q ∈ used ts) : f + h.lenAt f + sizeofHeader ≤ q ∨ q + usable h q ≤ f := by
  obtain ⟨a, ha, rfl⟩ := mem_used.mp hq
  have hfa : a ≠ f := hv.used_ne ha (List.mem_cons_of_mem _ hf)
  have hf' : f ∈ ts.map Blk.addr := (frees_sublist ts).subset hf
  have ha' : a ∈ ts.map Blk.addr := List.mem_map_of_mem ha
  have := usable_add (a := a) (hv.bounds ha).2.2
  rcases Nat.lt_or_gt_of_ne hfa with hlt | hlt
  · have := hv.tiled.disjoint ha' hf' hlt
    omega
  · have := hv.tiled.disjoint hf' ha' hlt
    omega

/--
**空き block は番地で接しない。** 空き block の終わりは、輪のどの節点の番地でもない：`free` が隣り合う
空き block をつなぐからである。
-/
theorem HeapInv.free_end_ne (hv : HeapInv h h0 ts) {f g : Nat} (hf : f ∈ frees ts)
    (hg : g ∈ h.base :: frees ts) : f + h.lenAt f ≠ g := by
  obtain ⟨hf₀, -, hpos⟩ := hv.free_bounds hf
  rcases List.mem_cons.mp hg with rfl | hg
  · -- `base` は `h0` より前にある
    have := hv.base_lt
    omega
  · intro he
    obtain ⟨-, hg₁, hg₂⟩ := hv.free_bounds hg
    have hnd : (ts.map Blk.addr).Nodup := hv.tiled.sorted.imp Nat.ne_of_lt
    have hco := hv.coalesced
    have ht := hv.tiled
    obtain ⟨pre, post, rfl⟩ := List.append_of_mem (mem_frees.mp hf)
    simp only [List.map_append, List.map_cons] at ht
    cases post with
    | nil =>
      -- `f` が最後の block なら、その終わりは break で、その先に block はない
      have := ht.last_eq
      omega
    | cons t post =>
      -- `f` のすぐ後ろの block は `g` で、二つの空き block が隣り合う
      have hta : t.addr = f + h.lenAt f := ht.next_eq
      have hteq : t = ⟨g, true⟩ :=
        List.inj_on_of_nodup_map hnd (by simp) (mem_frees.mp hg) (hta.trans he)
      subst hteq
      have := (coalesced_mid_free.mp hco).2.2.2 ⟨g, true⟩ (by simp)
      simp at this

end Apart

/-! ## run の不変条件 -/

/--
user から見た heap の不変条件。block の列 `ts` で heap は形を保ち、生きている pointer はちょうど使用中の
block で、それぞれ要求した byte 数以上を使える。
-/
structure ClientInv (h0 : Nat) (c : Client) (ts : List Blk) : Prop where
  inv : HeapInv c.heap h0 ts
  live_perm : (c.live.map Prod.fst).Perm (used ts)
  fits : ∀ x ∈ c.live, x.2.toNat ≤ usable c.heap x.1

section Inv

variable {h0 : Nat} {c : Client} {ts : List Blk}

/-- 最初の `malloc` の前は、block のない列で不変条件が成り立つ。 -/
theorem clientInv_init (hi : ClientInit h0 c) : ClientInv h0 c [] where
  inv :=
    { base_pos := hi.base_pos
      base_lt := hi.base_lt
      tiled := hi.brk.symm
      brk_le := by rw [hi.brk]; exact hi.top
      empty := fun _ => rfl
      base_size := fun hz => absurd hi.freep hz
      cycle := fun hz => absurd hi.freep hz
      freep_mem := fun hz => absurd hi.freep hz
      coalesced := List.IsChain.nil }
  live_perm := by simp [hi.live]
  fits := by simp [hi.live]

/-- 生きている pointer は、使用中の block の header の次にある。 -/
theorem ClientInv.split_used (hc : ClientInv h0 c ts) {x : Nat × UInt32} (hx : x ∈ c.live) :
    ∃ pre a post, ts = pre ++ ⟨a, false⟩ :: post ∧ x.1 = a + sizeofHeader := by
  obtain ⟨a, ha, hq⟩ := mem_used.mp (hc.live_perm.mem_iff.mp (List.mem_map_of_mem hx))
  obtain ⟨pre, post, e⟩ := List.append_of_mem ha
  exact ⟨pre, a, post, e, hq⟩

/--
**`malloc` は不変条件を保つ。** 0 でない pointer を返せば、それは要求した byte 数以上を使え、前からの
生きている block の大きさは変わらない。
-/
theorem ClientInv.of_malloc (hc : ClientInv h0 c ts) {fuel : Nat} {nbytes : UInt32} {h' : Heap}
    {q : Nat} (hn : nbytes.toNat + 16 ≤ 2 ^ 31) (hm : malloc fuel c.heap nbytes = .ok (h', q)) :
    ∃ ts', ClientInv h0 ⟨h', if q = 0 then c.live else (q, nbytes) :: c.live⟩ ts' := by
  obtain ⟨ts', hA⟩ := hc.inv.malloc_spec hn hm
  -- 前からの生きている block の使える byte 数は変わらない
  have hold : ∀ x ∈ c.live, x.2.toNat ≤ usable h' x.1 := by
    intro x hx
    have hx' : x.1 ∈ used ts := hc.live_perm.mem_iff.mp (List.mem_map_of_mem hx)
    have hu : usable h' x.1 = usable c.heap x.1 := by
      simp only [usable, hA.size_used x.1 hx']
    rw [hu]
    exact hc.fits x hx
  by_cases hq : q = 0
  · -- NULL：生きている pointer は変わらない
    have hp : (used ts').Perm (used ts) := by simpa [hq] using hA.used_perm
    rw [if_pos hq]
    exact ⟨ts', hA.inv, hc.live_perm.trans hp.symm, hold⟩
  · have hp : (used ts').Perm (q :: used ts) := by simpa [hq] using hA.used_perm
    rw [if_neg hq]
    refine ⟨ts', hA.inv, by simpa using (hc.live_perm.cons q).trans hp.symm, fun x hx => ?_⟩
    rcases List.mem_cons.mp hx with rfl | hx
    · exact malloc_usable_of_lt (show nbytes.toNat + 7 < 2 ^ 32 by omega) hm hq
    · exact hold x hx

/--
**`free` は不変条件を保つ。** 渡した pointer だけが生きている pointer から除かれ、ほかの生きている block
の大きさは変わらない。
-/
theorem ClientInv.of_free (hc : ClientInv h0 c ts) {fuel q : Nat} {n : UInt32} {h' : Heap}
    (hx : (q, n) ∈ c.live) (hf : free fuel c.heap q = .ok h') :
    ∃ ts', ClientInv h0 ⟨h', c.live.erase (q, n)⟩ ts' := by
  obtain ⟨pre, a, post, rfl, hq⟩ := hc.split_used hx
  simp only at hq
  subst hq
  obtain ⟨ts', hF⟩ := free_spec hc.inv hf
  -- 生きている pointer の列は、`free` した pointer を除いて使用中の block と一致する
  have hperm : ((c.live.erase (a + sizeofHeader, n)).map Prod.fst).Perm (used ts') := by
    have h₁ : (c.live.map Prod.fst).Perm
        ((a + sizeofHeader) :: (c.live.erase (a + sizeofHeader, n)).map Prod.fst) := by
      simpa using (List.perm_cons_erase hx).map Prod.fst
    exact (h₁.symm.trans (hc.live_perm.trans hF.used_perm)).cons_inv
  refine ⟨ts', hF.inv, hperm, fun x hx' => ?_⟩
  have hu : x.1 ∈ used ts' := hperm.mem_iff.mp (List.mem_map_of_mem hx')
  have hsize : usable h' x.1 = usable c.heap x.1 := by
    simp only [usable, hF.size_used x.1 hu]
  rw [hsize]
  exact hc.fits x (List.mem_of_mem_erase hx')

/-- 一回の呼び出しは不変条件を保つ。 -/
theorem ClientInv.step (hc : ClientInv h0 c ts) {c' : Client} (hs : ClientStep c c') :
    ∃ ts', ClientInv h0 c' ts' := by
  cases hs with
  | malloc hn hm => exact hc.of_malloc hn hm
  | free hx hf => exact hc.of_free hx hf

/-- **run の不変条件。** 到達できるどの状態にも、`ClientInv` を満たす block の列がある。 -/
theorem clientInv_of_reach (hr : ClientReach h0 c) : ∃ ts, ClientInv h0 c ts :=
  Reach.rec_inv (fun c => ∃ ts, ClientInv h0 c ts) (fun _ hi => ⟨[], clientInv_init hi⟩)
    (fun _ _ hc hs => by
      obtain ⟨ts, hc⟩ := hc
      exact hc.step hs)
    hr

end Inv

/-! ## 空の heap での最初の呼び出し -/

/-- 空の heap は、`base` を 8、break を 4096 とする最初の状態である。 -/
theorem clientInit_empty : ClientInit 4096 ⟨emptyHeap, []⟩ :=
  ⟨rfl, by decide, by decide, rfl, by decide, rfl⟩

/-- 空の heap での最初の `malloc(100)`：`morecore` した 4096 単位の末尾から 14 単位を切り出す。 -/
theorem reach_first_malloc :
    ∃ h' : Heap, ClientReach 4096 ⟨h', [(36760, 100)]⟩ ∧ h'.base = 8 ∧ h'.freep = 8 ∧
      h'.ptrAt 8 = 4096 ∧ h'.top = 2 ^ 20 ∧ (h'.hdr 36752).size = 14 ∧
      ∃ h₂, free 4 h' 36760 = .ok h₂ := by
  obtain ⟨h', hm, hb, hf, hp, ht, hs, h₂, hfr⟩ : ∃ h' : Heap, malloc 4 emptyHeap 100 = .ok (h', 36760) ∧
      h'.base = 8 ∧ h'.freep = 8 ∧ h'.ptrAt 8 = 4096 ∧ h'.top = 2 ^ 20 ∧ (h'.hdr 36752).size = 14 ∧
      ∃ h₂, free 4 h' 36760 = .ok h₂ := ⟨_, rfl, rfl, rfl, rfl, rfl, rfl, _, rfl⟩
  have hstep : ClientStep ⟨emptyHeap, []⟩ ⟨h', [(36760, 100)]⟩ := by
    simpa using ClientStep.malloc (c := ⟨emptyHeap, []⟩)
      (show (100 : UInt32).toNat + 16 ≤ 2 ^ 31 by decide) hm
  exact ⟨h', Reach.step (Reach.init clientInit_empty) hstep, hb, hf, hp, ht, hs, h₂, hfr⟩

/-- 空の heap で `malloc(100)` と `malloc(200)` を続けた状態：生きている block が二つある。 -/
theorem reach_two_mallocs : ∃ c : Client, ClientReach 4096 c ∧ c.live.length = 2 := by
  obtain ⟨h₁, h₂, q₁, q₂, hm₁, hm₂, hq₁, hq₂⟩ : ∃ h₁ h₂ q₁ q₂, malloc 4 emptyHeap 100 = .ok (h₁, q₁) ∧
      malloc 4 h₁ 200 = .ok (h₂, q₂) ∧ q₁ ≠ 0 ∧ q₂ ≠ 0 := ⟨_, _, _, _, rfl, rfl, by decide, by decide⟩
  have s₁ : ClientStep ⟨emptyHeap, []⟩ ⟨h₁, [(q₁, 100)]⟩ := by
    simpa [hq₁] using ClientStep.malloc (c := ⟨emptyHeap, []⟩)
      (show (100 : UInt32).toNat + 16 ≤ 2 ^ 31 by decide) hm₁
  have s₂ : ClientStep ⟨h₁, [(q₁, 100)]⟩ ⟨h₂, [(q₂, 200), (q₁, 100)]⟩ := by
    simpa [hq₂] using ClientStep.malloc (c := ⟨h₁, [(q₁, 100)]⟩)
      (show (200 : UInt32).toNat + 16 ≤ 2 ^ 31 by decide) hm₂
  exact ⟨_, Reach.step (Reach.step (Reach.init clientInit_empty) s₁) s₂, rfl⟩

/-! ## 到達できる状態で成り立つこと -/

section Reach

variable {h0 : Nat} {c : Client}

/--
**到達できるどの状態でも heap の形が保たれる。** 最初の `malloc` の前から `malloc` と `free` をどう
重ねても、heap は block の列 `ts` で `HeapInv` を満たし、生きている pointer はちょうど `ts` の使用中の
block で、それぞれ要求した byte 数以上を使える。
-/
theorem reachable_heap_inv (hr : ClientReach h0 c) :
    ∃ ts, HeapInv c.heap h0 ts ∧ (c.live.map Prod.fst).Perm (used ts) ∧
      ∀ x ∈ c.live, x.2.toNat ≤ usable c.heap x.1 := by
  obtain ⟨ts, hc⟩ := clientInv_of_reach hr
  exact ⟨ts, hc.inv, hc.live_perm, hc.fits⟩

theorem reachable_heap_inv_first_malloc :
    ∃ h' : Heap, ∃ ts, HeapInv h' 4096 ts ∧ ([(36760, 100)].map Prod.fst).Perm (used ts) ∧
      ∀ x ∈ [((36760 : Nat), (100 : UInt32))], x.2.toNat ≤ usable h' x.1 := by
  obtain ⟨h', hr, -⟩ := reach_first_malloc
  exact ⟨h', reachable_heap_inv hr⟩

/--
**生きている block は重ならない。** 到達できるどの状態でも、生きている pointer に重なりはなく、どれも
`h0` の後ろから break までの間で要求した byte 数以上を使え、番地の小さい block の使える byte は、番地の
大きい block の header より前で終わる。
-/
theorem live_blocks_apart (hr : ClientReach h0 c) :
    (c.live.map Prod.fst).Nodup ∧
      (∀ x ∈ c.live, h0 + sizeofHeader ≤ x.1 ∧ x.1 + usable c.heap x.1 ≤ c.heap.brk ∧
        x.2.toNat ≤ usable c.heap x.1) ∧
      ∀ x ∈ c.live, ∀ y ∈ c.live, x.1 < y.1 → x.1 + usable c.heap x.1 + sizeofHeader ≤ y.1 := by
  obtain ⟨ts, hc⟩ := clientInv_of_reach hr
  have hmem : ∀ x ∈ c.live, x.1 ∈ used ts := fun x hx =>
    hc.live_perm.mem_iff.mp (List.mem_map_of_mem hx)
  refine ⟨hc.live_perm.nodup_iff.mpr (hc.inv.used_sorted.imp Nat.ne_of_lt), fun x hx => ?_,
    fun x hx y hy hxy => hc.inv.used_apart (hmem x hx) (hmem y hy) hxy⟩
  obtain ⟨h₁, h₂⟩ := hc.inv.used_bounds (hmem x hx)
  exact ⟨h₁, h₂, hc.fits x hx⟩

/-- `malloc(100)` と `malloc(200)` の後の、生きている二つの block。 -/
theorem live_blocks_apart_two_mallocs :
    ∃ c : Client, ClientReach 4096 c ∧ c.live.length = 2 ∧ (c.live.map Prod.fst).Nodup ∧
      (∀ x ∈ c.live, 4096 + sizeofHeader ≤ x.1 ∧ x.1 + usable c.heap x.1 ≤ c.heap.brk ∧
        x.2.toNat ≤ usable c.heap x.1) ∧
      ∀ x ∈ c.live, ∀ y ∈ c.live, x.1 < y.1 → x.1 + usable c.heap x.1 + sizeofHeader ≤ y.1 := by
  obtain ⟨c, hr, hl⟩ := reach_two_mallocs
  exact ⟨c, hr, hl, live_blocks_apart hr⟩

/--
**空き block の輪は生きている block と重ならない。** 到達できるどの状態でも、輪の上の `base` でない
block は `h0` の後ろから break までにあり、その終わりは輪のどの節点でもなく（隣り合う空き block は
つながれている）、どの生きている block とも重ならない。
-/
theorem free_list_apart (hr : ClientReach h0 c) {f g : Nat} (hf : OnFreeList c.heap f)
    (hb : f ≠ c.heap.base) (hg : OnFreeList c.heap g) :
    h0 ≤ f ∧ f + c.heap.lenAt f ≤ c.heap.brk ∧ f + c.heap.lenAt f ≠ g ∧
      ∀ x ∈ c.live, f + c.heap.lenAt f + sizeofHeader ≤ x.1 ∨ x.1 + usable c.heap x.1 ≤ f := by
  obtain ⟨ts, hc⟩ := clientInv_of_reach hr
  have hf' : f ∈ frees ts := by
    rcases List.mem_cons.mp (hc.inv.mem_of_onFreeList hf) with he | hf'
    · exact absurd he hb
    · exact hf'
  obtain ⟨h₁, h₂, -⟩ := hc.inv.free_bounds hf'
  refine ⟨h₁, h₂, hc.inv.free_end_ne hf' (hc.inv.mem_of_onFreeList hg), fun x hx => ?_⟩
  exact hc.inv.free_used_apart hf' (hc.live_perm.mem_iff.mp (List.mem_map_of_mem hx))

theorem free_list_apart_first_malloc :
    ∃ h' : Heap, OnFreeList h' 4096 ∧ 4096 ≠ h'.base ∧ OnFreeList h' 8 ∧
      4096 ≤ 4096 ∧ 4096 + h'.lenAt 4096 ≤ h'.brk ∧ 4096 + h'.lenAt 4096 ≠ 8 ∧
      ∀ x ∈ [((36760 : Nat), (100 : UInt32))],
        4096 + h'.lenAt 4096 + sizeofHeader ≤ x.1 ∨ x.1 + usable h' x.1 ≤ 4096 := by
  obtain ⟨h', hr, hb, hf, hp, -⟩ := reach_first_malloc
  have hf₁ : OnFreeList h' 4096 := ⟨by rw [hf]; decide, 1, by rw [hf]; exact hp⟩
  have hf₂ : OnFreeList h' 8 := ⟨by rw [hf]; decide, 0, hf⟩
  have hb' : (4096 : Nat) ≠ h'.base := by rw [hb]; decide
  exact ⟨h', hf₁, hb', hf₂, free_list_apart hr hf₁ hb' hf₂⟩

/--
**呼び出しは必ず返る。** 到達できるどの状態でも、上限までに入る block の数の 2 倍と 2 の fuel で、
`nbytes + 16 ≤ 2^31` のどの `malloc` も、生きているどの pointer の `free` も返る。
-/
theorem client_calls_return (hr : ClientReach h0 c) {fuel : Nat}
    (hfuel : 2 * ((c.heap.top - h0) / sizeofHeader) + 2 ≤ fuel) :
    (∀ nbytes : UInt32, nbytes.toNat + 16 ≤ 2 ^ 31 → ∃ r, malloc fuel c.heap nbytes = .ok r) ∧
      ∀ x ∈ c.live, ∃ h', free fuel c.heap x.1 = .ok h' := by
  obtain ⟨ts, hc⟩ := clientInv_of_reach hr
  refine ⟨fun nbytes hn => hc.inv.malloc_ok hn hfuel, fun x hx => ?_⟩
  obtain ⟨pre, a, post, rfl, hq⟩ := hc.split_used hx
  rw [hq]
  have := hc.inv.frees_length_le
  exact hc.inv.free_ok (by omega)

theorem client_calls_return_first_malloc :
    ∃ h' : Heap, (∀ nbytes : UInt32, nbytes.toNat + 16 ≤ 2 ^ 31 → ∃ r, malloc 261122 h' nbytes = .ok r) ∧
      ∀ x ∈ [((36760 : Nat), (100 : UInt32))], ∃ h'', free 261122 h' x.1 = .ok h'' := by
  obtain ⟨h', hr, -, -, -, ht, -⟩ := reach_first_malloc
  exact ⟨h', client_calls_return hr (by rw [ht]; decide)⟩

/--
**`free` した block は break を伸ばさずに使い直される。** 到達できるどの状態でも、生きている pointer `q`
を `free` した直後の `malloc` は、要求の単位数が `q` の block 以下なら（要求の大きさによらず）、上限までに入る block の数より多い
fuel で 0 でない pointer を返し、break は `free` の前のままである。
-/
theorem malloc_after_free_reuses (hr : ClientReach h0 c) {q : Nat} {m : UInt32} (hq : (q, m) ∈ c.live)
    {fuel : Nat} {h' : Heap} (hf : free fuel c.heap q = .ok h') {nbytes : UInt32} (hfit : (nunitsOf nbytes).toNat ≤ (c.heap.hdr (q - sizeofHeader)).size)
    {fuel' : Nat} (hfuel : (c.heap.top - h0) / sizeofHeader < fuel') :
    ∃ h'' q', malloc fuel' h' nbytes = .ok (h'', q') ∧ q' ≠ 0 ∧ h''.brk = c.heap.brk := by
  obtain ⟨ts, hc⟩ := clientInv_of_reach hr
  obtain ⟨pre, a, post, rfl, hqa⟩ := hc.split_used hq
  simp only at hqa
  subst hqa
  obtain ⟨ts', hF⟩ := free_spec hc.inv hf
  have hne : h'.freep ≠ 0 := Nat.ne_of_gt hF.freep_pos
  -- `free` の後、`freep` かその次の block は、`free` した block 以上の大きさを持つ
  have hfits : FitsNear h' (nunitsOf nbytes).toNat := hF.fits.mono (by simpa using hfit)
  have hlen : (frees ts').length < fuel' := by
    have := hF.inv.frees_length_le
    rw [hF.top_eq] at this
    omega
  rw [malloc_eq, mallocInit_of_ne hne]
  obtain ⟨h'', q', hm, hq', hbrk⟩ := hF.inv.mallocLoop_of_fits hne hfits hlen
  exact ⟨h'', q', hm, hq', hbrk.trans hF.brk_eq⟩

theorem malloc_after_free_reuses_first_malloc :
    ∃ h' h₂ : Heap, free 4 h' 36760 = .ok h₂ ∧
      ∃ h'' q', malloc 130561 h₂ 100 = .ok (h'', q') ∧ q' ≠ 0 ∧ h''.brk = h'.brk := by
  obtain ⟨h', hr, -, -, -, ht, hs, h₂, hfr⟩ := reach_first_malloc
  have hfit : (nunitsOf 100).toNat ≤ (h'.hdr (36760 - sizeofHeader)).size := by
    rw [show 36760 - sizeofHeader = 36752 from rfl, hs]
    decide
  exact ⟨h', h₂, hfr, malloc_after_free_reuses hr (List.mem_singleton_self _) hfr hfit
    (by rw [ht]; decide)⟩

end Reach

end Xv6.Umalloc

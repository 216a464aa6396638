import Mathlib.Data.Nat.Find
import Xv6Mount.User.UmallocFree

/-!
# `malloc` が保つ heap の形

`malloc` は `freep` の次から空き block の輪を回り、大きさがちょうどの block は輪から外し、大きい
block は後ろから切り出す。一周して `freep` に戻れば `morecore` で break を伸ばし、伸ばした block を
`free` してから回り続ける。要求は `nbytes + 16 ≤ 2^31` のものとする：単位数の 8 倍を `int` にした
`sbrk` の引数が、負にも小さい数にも回らない範囲である。

* `Allocated` — `malloc` の後の heap：形は保たれ、返した block だけが使用中に加わり、ほかの使用中の
  block の大きさは変わらない
* `HeapInv.take_exact`・`HeapInv.take_split` — 合う block を輪から外す、後ろから切り出す
* `HeapInv.morecore_spec` — `morecore` は形を保ち、伸ばした分を `freep` かその次に置く
* `HeapInv.mallocLoop_spec`・`HeapInv.malloc_spec` — `malloc` が返す heap は `Allocated`
* `HeapInv.scan`・`mallocLoop_at_stop` — loop は一周のうちに、初めて合う block か `freep` で止まる
* `HeapInv.malloc_ok` — break の上限で決まる fuel で、`malloc` は止まる
* `HeapInv.malloc_null` — `malloc` が 0 を返すのは、どの空き block も小さく、break を伸ばせない時だけ
-/

namespace Xv6.Umalloc

open Infra

/-! ## `malloc` の後の heap -/

/--
`malloc` が `q` を返した後の heap。形は保たれ、`q` が 0 でなければ `q` だけが使用中の pointer に
加わってその block は `n` 単位を持ち、前からの使用中の block の大きさは変わらない。上限は変わらない。
-/
structure Allocated (h h' : Heap) (h0 n q : Nat) (ts ts' : List Blk) : Prop where
  inv : HeapInv h' h0 ts'
  used_perm : (used ts').Perm (if q = 0 then used ts else q :: used ts)
  size_new : q ≠ 0 → (h'.hdr (q - sizeofHeader)).size = n
  size_used : ∀ x ∈ used ts, (h'.hdr (x - sizeofHeader)).size = (h.hdr (x - sizeofHeader)).size
  top_eq : h'.top = h.top

section Alloc

variable {h h₁ h₂ : Heap} {h0 n q : Nat} {ts ts₁ ts₂ : List Blk}

/-- 何もしないのも `Allocated`（`q = 0`）。 -/
theorem HeapInv.allocated_refl (hv : HeapInv h h0 ts) : Allocated h h h0 n 0 ts ts :=
  ⟨hv, by simp, fun hq => absurd rfl hq, fun _ _ => rfl, rfl⟩

/-- 何も返さない変化の後に `Allocated` が続けば、全体も `Allocated`。 -/
theorem Allocated.trans (ha : Allocated h h₁ h0 n 0 ts ts₁) (hb : Allocated h₁ h₂ h0 n q ts₁ ts₂) :
    Allocated h h₂ h0 n q ts ts₂ := by
  have hp₁ : (used ts₁).Perm (used ts) := by simpa using ha.used_perm
  refine ⟨hb.inv, ?_, hb.size_new, fun x hx => ?_, hb.top_eq.trans ha.top_eq⟩
  · have hb' := hb.used_perm
    by_cases hq : q = 0
    · rw [if_pos hq] at hb' ⊢
      exact hb'.trans hp₁
    · rw [if_neg hq] at hb' ⊢
      exact hb'.trans (hp₁.cons q)
  · rw [hb.size_used x (hp₁.mem_iff.mpr hx), ha.size_used x hx]

end Alloc

/-- 大きい要求に合うなら、小さい要求にも合う。 -/
theorem FitsNear.mono {h : Heap} {m n : Nat} (hmn : m ≤ n) (hf : FitsNear h n) : FitsNear h m := by
  rcases hf with hf | hf
  · exact Or.inl (Nat.le_trans hmn hf)
  · exact Or.inr (Nat.le_trans hmn hf)

/-! ## 合う block を渡す -/

section Take

variable {h : Heap} {h0 p prevp : Nat} {pre post : List Blk}

/-- 空き block `p` で分けた輪。 -/
theorem cycle_split_free (h : Heap) :
    h.base :: frees (pre ++ ⟨p, true⟩ :: post) = (h.base :: frees pre) ++ p :: frees post := by
  simp

/-- 空き block `p` の前後の block は、`p` と重ならない。 -/
theorem HeapInv.around_free (hv : HeapInv h h0 (pre ++ ⟨p, true⟩ :: post)) {w : Nat} :
    (w ∈ pre.map Blk.addr → w + h.lenAt w ≤ p) ∧ (w ∈ post.map Blk.addr → p + h.lenAt p ≤ w) := by
  have ht : Tiled h.lenAt h0 (pre.map Blk.addr ++ p :: post.map Blk.addr) h.brk := by
    simpa using hv.tiled
  have ht' : Tiled h.lenAt h0 ((pre.map Blk.addr ++ [p]) ++ post.map Blk.addr) h.brk := by
    simpa using hv.tiled
  exact ⟨fun hw => ht.end_le hw List.mem_cons_self, fun hw => ht'.end_le (by simp) hw⟩

/--
**ちょうどの block を渡す。** `prevp` の次の空き block `p` を輪から外して使用中にする。`p` の header は
変わらない。
-/
theorem HeapInv.take_exact (hv : HeapInv h h0 (pre ++ ⟨p, true⟩ :: post))
    (hprev : prevp ∈ h.base :: frees (pre ++ ⟨p, true⟩ :: post)) (hpp : h.ptrAt prevp = p) :
    Allocated h { h.setPtr prevp (h.hdr p).ptr with freep := prevp } h0 (h.hdr p).size
      (p + sizeofHeader) (pre ++ ⟨p, true⟩ :: post) (pre ++ ⟨p, false⟩ :: post) := by
  have hne : h.freep ≠ 0 := hv.freep_ne (by simp)
  have hcyc := hv.cycle hne
  obtain ⟨L, r, hL⟩ := exists_eq_snoc h.base (frees pre)
  obtain ⟨s, R, hsR⟩ := exists_cons_eq (frees post) h.base
  have e : h.base :: frees (pre ++ ⟨p, true⟩ :: post) ++ [h.base] = L ++ r :: [p] ++ s :: R := by
    rw [cycle_split_free, hL, List.append_assoc, List.cons_append, List.append_assoc, hsR]
    simp
  have hold : Steps h.ptrAt (L ++ r :: [p] ++ s :: R) := e ▸ hcyc
  have hnd : (L ++ r :: p :: frees post).Nodup := by
    have := hv.nodup
    rwa [cycle_split_free, hL, List.append_assoc, List.singleton_append] at this
  have hrL : ∀ y ∈ L, y ≠ r := fun y hy => (List.nodup_append.mp hnd).2.2 y hy r List.mem_cons_self
  have hrpost : r ∉ p :: frees post := (List.nodup_cons.mp (List.nodup_append.mp hnd).2.1).1
  -- `prevp` は輪で `p` の前の節点 `r`
  have hr : h.ptrAt r = p := hold.next_eq L r p (s :: R) (by simp)
  obtain rfl : prevp = r := hcyc.next_inj hv.nodup hprev (by rw [cycle_split_free, hL]; simp)
    (hpp.trans hr.symm)
  have hps : h.ptrAt p = s := hold.next_eq (L ++ [prevp]) p s R (by simp)
  -- 輪：`prevp` の次を `p` の次にする
  have hnew : Steps (h.setPtr prevp (h.hdr p).ptr).ptrAt (L ++ prevp :: [] ++ s :: R) := by
    refine hold.splice ?_ (fun y hy => ?_) (fun y hy => ?_)
    · simpa [Heap.ptrAt] using hps
    · simp only [Heap.ptrAt, Heap.setPtr_of_ne _ _ (hrL y hy)]
    · rw [dropLast_of_cons_eq hsR] at hy
      have hy' : y ≠ prevp := fun hyr => hrpost (hyr ▸ List.mem_cons_of_mem p hy)
      simp only [Heap.ptrAt, Heap.setPtr_of_ne _ _ hy']
  have e' : h.base :: frees (pre ++ ⟨p, false⟩ :: post) ++ [h.base] = L ++ prevp :: [] ++ s :: R := by
    rw [frees_append, frees_cons_used, ← List.cons_append, hL, List.append_assoc, hsR]
  have hpos : 0 < prevp := hv.cycle_pos hprev
  have hco := coalesced_mid_free.mp hv.coalesced
  refine
    { inv :=
        { base_pos := hv.base_pos
          base_lt := hv.base_lt
          tiled := by simpa using hv.tiled.congr fun x _ => by simp [Heap.lenAt]
          brk_le := hv.brk_le
          empty := fun hz => absurd hz (Nat.ne_of_gt hpos)
          base_size := fun _ => by simpa using hv.base_size hne
          cycle := fun _ => by
            show Steps (h.setPtr prevp (h.hdr p).ptr).ptrAt
              (h.base :: frees (pre ++ ⟨p, false⟩ :: post) ++ [h.base])
            rw [e']
            exact hnew
          freep_mem := fun _ => by
            show prevp ∈ h.base :: frees (pre ++ ⟨p, false⟩ :: post)
            rw [frees_append, ← List.cons_append, hL]
            simp
          coalesced := coalesced_mid_used.mpr ⟨hco.1, hco.2.1⟩ }
      used_perm := by
        rw [if_neg (by simp [sizeofHeader])]
        simp
      size_new := fun _ => by simp
      size_used := fun _ _ => by simp
      top_eq := rfl }

/--
**大きい block から切り出す。** 空き block `p` を `n` 単位だけ縮め、後ろの `n` 単位を新しい使用中の
block にする。`ptr` はどこも変わらないので、輪もそのままである。
-/
theorem HeapInv.take_split {n : Nat} (hv : HeapInv h h0 (pre ++ ⟨p, true⟩ :: post))
    (hprev : prevp ∈ h.base :: frees (pre ++ ⟨p, true⟩ :: post)) (hn : 0 < n) (hlt : n < (h.hdr p).size) :
    Allocated h
      { (h.setSize p ((h.hdr p).size - n)).setSize (p + sizeofHeader * ((h.hdr p).size - n)) n with
          freep := prevp }
      h0 n (p + sizeofHeader * ((h.hdr p).size - n) + sizeofHeader) (pre ++ ⟨p, true⟩ :: post)
      (pre ++ ⟨p, true⟩ :: ⟨p + sizeofHeader * ((h.hdr p).size - n), false⟩ :: post) := by
  have hne : h.freep ≠ 0 := hv.freep_ne (by simp)
  set k := sizeofHeader * ((h.hdr p).size - n) with hk
  set h₂ := (h.setSize p ((h.hdr p).size - n)).setSize (p + k) n
  have hk0 : 0 < k := by simp only [hk, sizeofHeader]; omega
  have hpk : p + k ≠ p := by omega
  -- 切り出した block の header と、ほかの header
  have hsz_p : (h₂.hdr p).size = (h.hdr p).size - n := by
    simp [h₂, Heap.setSize_of_ne _ _ hpk.symm]
  have hsz_pk : (h₂.hdr (p + k)).size = n := by simp [h₂]
  have hsz_of_ne : ∀ x, x ≠ p → x ≠ p + k → h₂.hdr x = h.hdr x := by
    intro x h₁ h₂'
    simp only [h₂, Heap.setSize_of_ne _ _ h₁, Heap.setSize_of_ne _ _ h₂']
  have hptr : h₂.ptrAt = h.ptrAt := funext fun x => by simp [h₂, Heap.ptrAt]
  -- ほかの block は `p` とも `p + k` とも異なる
  have hother : ∀ w ∈ pre.map Blk.addr ++ post.map Blk.addr, w ≠ p ∧ w ≠ p + k := by
    intro w hw
    have hlen : h.lenAt p = sizeofHeader * (h.hdr p).size := rfl
    have hwm : w ∈ (pre ++ ⟨p, true⟩ :: post).map Blk.addr := by
      simp only [List.map_append, List.map_cons, List.mem_append, List.mem_cons] at hw ⊢
      tauto
    have hpos := (hv.tiled.bounds hwm).2.2
    rcases List.mem_append.mp hw with hw | hw
    · have := hv.around_free.1 hw
      constructor <;> omega
    · have := hv.around_free.2 hw
      simp only [hk, sizeofHeader] at this hlen ⊢
      constructor <;> omega
  -- block の列：`p` を `k` byte と残りに分ける
  have htiled : Tiled h₂.lenAt h0 (pre.map Blk.addr ++ p :: (p + k) :: post.map Blk.addr) h.brk := by
    have ht : Tiled h.lenAt h0 (pre.map Blk.addr ++ p :: post.map Blk.addr) h.brk := by
      simpa using hv.tiled
    refine ht.split hk0 ?_ ?_ ?_ fun w hw => ?_
    · simp only [Heap.lenAt, hk, sizeofHeader]
      omega
    · simp only [Heap.lenAt, hsz_p, hk]
    · rw [Heap.lenAt, hsz_pk, Heap.lenAt, hk, sizeofHeader]
      omega
    · obtain ⟨h₁, h₂'⟩ := hother w hw
      simp only [Heap.lenAt, hsz_of_ne w h₁ h₂']
  have hbase : h.base < p := by
    have := (hv.tiled.bounds (x := p) (by simp)).1
    have := hv.base_lt
    omega
  have hco := coalesced_mid_free.mp hv.coalesced
  have hpos : 0 < prevp := hv.cycle_pos hprev
  refine
    { inv :=
        { base_pos := hv.base_pos
          base_lt := hv.base_lt
          tiled := by
            show Tiled h₂.lenAt h0 ((pre ++ ⟨p, true⟩ :: ⟨p + k, false⟩ :: post).map Blk.addr) h.brk
            simpa using htiled
          brk_le := hv.brk_le
          empty := fun hz => absurd hz (Nat.ne_of_gt hpos)
          base_size := fun _ => by
            show (h₂.hdr h.base).size = 0
            rw [hsz_of_ne h.base (Nat.ne_of_lt hbase) (by omega)]
            exact hv.base_size hne
          cycle := fun _ => by
            show Steps h₂.ptrAt (h.base :: frees (pre ++ ⟨p, true⟩ :: ⟨p + k, false⟩ :: post) ++ [h.base])
            rw [hptr]
            simpa using hv.cycle hne
          freep_mem := fun _ => by
            show prevp ∈ h.base :: frees (pre ++ ⟨p, true⟩ :: ⟨p + k, false⟩ :: post)
            simpa using hprev
          coalesced := by
            have e : pre ++ ⟨p, true⟩ :: ⟨p + k, false⟩ :: post =
                (pre ++ [⟨p, true⟩]) ++ ⟨p + k, false⟩ :: post := by simp
            rw [e, coalesced_mid_used, coalesced_mid_free]
            exact ⟨⟨hco.1, List.IsChain.nil, hco.2.2.1, by simp⟩, hco.2.1⟩ }
      used_perm := by
        rw [if_neg (by simp [sizeofHeader])]
        simp
      size_new := fun _ => by simpa using hsz_pk
      size_used := fun x hx => by
        obtain ⟨b, hb, rfl⟩ := mem_used.mp hx
        have hbp : b ≠ p := hv.used_ne hb (by simp)
        have hbm : b ∈ pre.map Blk.addr ++ post.map Blk.addr := by
          simp only [List.mem_append, List.mem_cons, Blk.mk.injEq, Bool.false_eq_true, and_false,
            false_or] at hb
          simp only [List.mem_append]
          rcases hb with hb | hb
          · exact Or.inl (List.mem_map_of_mem hb)
          · exact Or.inr (List.mem_map_of_mem hb)
        show (h₂.hdr (b + sizeofHeader - sizeofHeader)).size = _
        rw [Nat.add_sub_cancel, hsz_of_ne b hbp (hother b hbm).2]
      top_eq := rfl }

end Take

/-! ## `morecore` -/

/-- 2^31 未満の `uint` は、`int` にしても同じ値。 -/
theorem toInt_toInt32_of_lt {x : UInt32} (hx : x.toNat < 2 ^ 31) : x.toInt32.toInt = x.toNat := by
  rw [Int32.toInt, UInt32.toBitVec_toInt32, BitVec.toInt_eq_toNat_cond]
  simp only [UInt32.toNat_toBitVec]
  rw [if_pos (by omega)]

/-- `nu` 単位が 2^28 未満なら、`sbrk` に渡す `nu * sizeof(Header)` は負でなく、`8 * nu` byte を頼む。 -/
theorem sbrk_arg {nu : UInt32} (hnu : nu.toNat < 2 ^ 28) :
    0 ≤ (nu * sizeofHeader.toUInt32).toInt32 ∧
      (nu * sizeofHeader.toUInt32).toInt32.toNatClampNeg = sizeofHeader * nu.toNat := by
  have hmul : (nu * sizeofHeader.toUInt32).toNat = sizeofHeader * nu.toNat := by
    simp only [UInt32.toNat_mul, sizeofHeader, Nat.toUInt32_eq]
    simp
    omega
  have h := toInt_toInt32_of_lt (x := nu * sizeofHeader.toUInt32) (by rw [hmul, sizeofHeader]; omega)
  constructor
  · rw [Int32.le_iff_toInt_le, h, Int32.toInt_zero]
    exact Int.natCast_nonneg _
  · rw [← Int32.toNat_toInt, h, hmul]
    exact Int.toNat_natCast _

/-- `morecore` が伸ばす単位数は、頼まれた数以上、4096 以上で、2^28 未満のまま。 -/
theorem grow_toNat (nu : UInt32) : (if nu < 4096 then 4096 else nu).toNat = max nu.toNat 4096 := by
  split
  · rename_i hlt
    have : nu.toNat < 4096 := UInt32.lt_iff_toNat_lt.mp hlt
    simp only [UInt32.reduceToNat]
    omega
  · rename_i hge
    have : ¬nu.toNat < 4096 := fun h' => hge (UInt32.lt_iff_toNat_lt.mpr (by simpa using h'))
    omega

theorem grow_bounds {nu : UInt32} (hnu : nu.toNat < 2 ^ 28) :
    nu.toNat ≤ (if nu < 4096 then 4096 else nu).toNat ∧ 0 < (if nu < 4096 then 4096 else nu).toNat ∧
      (if nu < 4096 then 4096 else nu).toNat < 2 ^ 28 := by
  rw [grow_toNat]
  omega

section Grow

variable {h : Heap} {h0 : Nat} {ts : List Blk}

/-- 上限に収まれば、`morecore` の `sbrk` は break を `8 * nu` byte 伸ばし、古い break を返す。 -/
theorem sbrk_of_le {nu : UInt32} (hlt : nu.toNat < 2 ^ 28)
    (htop : h.brk + sizeofHeader * nu.toNat ≤ h.top) :
    sbrk h (nu * sizeofHeader.toUInt32).toInt32 =
      some ({ h with brk := h.brk + sizeofHeader * nu.toNat }, h.brk) := by
  obtain ⟨harg, hclamp⟩ := sbrk_arg hlt
  unfold sbrk
  rw [if_pos ⟨harg, by rw [hclamp]; exact htop⟩, hclamp]

/-- 上限を越えれば、`morecore` の `sbrk` は失敗する。 -/
theorem sbrk_of_gt {nu : UInt32} (hlt : nu.toNat < 2 ^ 28)
    (htop : ¬h.brk + sizeofHeader * nu.toNat ≤ h.top) :
    sbrk h (nu * sizeofHeader.toUInt32).toInt32 = none := by
  obtain ⟨-, hclamp⟩ := sbrk_arg hlt
  unfold sbrk
  rw [if_neg fun hc => htop (by rw [← hclamp]; exact hc.2)]

/--
**break を伸ばす。** break から `m` 単位を伸ばし、そこに `m` 単位の header を書けば、伸ばした block を
使用中の block として最後に足した列で、heap の形は保たれる。
-/
theorem HeapInv.grow (hv : HeapInv h h0 ts) (hne : h.freep ≠ 0) {m : Nat} (hm : 0 < m)
    (htop : h.brk + sizeofHeader * m ≤ h.top) :
    HeapInv ({ h with brk := h.brk + sizeofHeader * m }.setSize h.brk m) h0 (ts ++ [⟨h.brk, false⟩]) := by
  set h₂ := { h with brk := h.brk + sizeofHeader * m }.setSize h.brk m
  have hof : ∀ x, x ≠ h.brk → h₂.hdr x = h.hdr x := fun x hx => Heap.setSize_of_ne _ _ hx
  have hptr : h₂.ptrAt = h.ptrAt := funext fun x => by simp [h₂, Heap.ptrAt]
  have hbrk : h.base < h.brk := Nat.lt_of_lt_of_le hv.base_lt hv.tiled.le
  -- 前からの block はどれも break より前にある
  have hlt : ∀ x ∈ ts.map Blk.addr, x ≠ h.brk := by
    intro x hx
    have := hv.tiled.bounds hx
    omega
  have htiled : Tiled h₂.lenAt h0 (ts.map Blk.addr ++ [h.brk]) (h.brk + sizeofHeader * m) := by
    have hlen : h₂.lenAt h.brk = sizeofHeader * m := by simp [h₂, Heap.lenAt]
    rw [← hlen]
    refine (hv.tiled.congr fun x hx => ?_).snoc (by rw [hlen, sizeofHeader]; omega)
    simp only [Heap.lenAt, hof x (hlt x hx)]
  exact
    { base_pos := hv.base_pos
      base_lt := hv.base_lt
      tiled := by
        show Tiled h₂.lenAt h0 ((ts ++ [Blk.mk h.brk false]).map Blk.addr) (h.brk + sizeofHeader * m)
        simpa using htiled
      brk_le := htop
      empty := fun hz => absurd hz hne
      base_size := fun _ => by
        show (h₂.hdr h.base).size = 0
        rw [hof h.base (Nat.ne_of_lt hbrk)]
        exact hv.base_size hne
      cycle := fun _ => by
        show Steps h₂.ptrAt (h.base :: frees (ts ++ [⟨h.brk, false⟩]) ++ [h.base])
        rw [hptr]
        simpa using hv.cycle hne
      freep_mem := fun _ => by
        show h.freep ∈ h.base :: frees (ts ++ [⟨h.brk, false⟩])
        simpa using hv.freep_mem hne
      coalesced := by
        rw [coalesced_mid_used]
        exact ⟨hv.coalesced, List.IsChain.nil⟩ }

/--
**`morecore` は形を保つ。** `nu` 単位（2^28 未満）の `morecore` が終われば、heap の形は保たれ、使用中の
pointer は変わらない。0（失敗）を返さなければ、返すのは新しい `freep` で、伸ばした分は `freep` か
その次の block にある。
-/
theorem HeapInv.morecore_spec (hv : HeapInv h h0 ts) (hne : h.freep ≠ 0) {nu : UInt32}
    (hnu : nu.toNat < 2 ^ 28) {fuel n p : Nat} {h' : Heap} (hm : morecore fuel h nu = .ok (h', p)) :
    ∃ ts', Allocated h h' h0 n 0 ts ts' ∧ h'.freep ≠ 0 ∧
      (p = 0 ∨ (p = h'.freep ∧ FitsNear h' nu.toNat)) := by
  obtain ⟨hle, hpos, hlt⟩ := grow_bounds hnu
  simp only [morecore] at hm
  generalize (if nu < 4096 then 4096 else nu) = nu' at hm hle hpos hlt
  by_cases htop : h.brk + sizeofHeader * nu'.toNat ≤ h.top
  · -- break を伸ばし、伸ばした block を `free` する
    rw [sbrk_of_le hlt htop] at hm
    have hv₂ := hv.grow hne hpos htop
    cases hf : free fuel ({ h with brk := h.brk + sizeofHeader * nu'.toNat }.setSize h.brk nu'.toNat)
        (h.brk + sizeofHeader) with
    | error e =>
      simp [hf] at hm
    | ok h₃ =>
      simp only [hf, bind, Except.bind, pure, Except.pure, Except.ok.injEq, Prod.mk.injEq] at hm
      obtain ⟨rfl, rfl⟩ := hm
      obtain ⟨ts₃, hF⟩ := free_spec hv₂ hf
      have hperm : (used ts₃).Perm (used ts) := by
        have := hF.used_perm
        rw [used_append, used_cons_used, used_nil] at this
        exact (List.perm_append_singleton _ _ |>.symm.trans this).cons_inv.symm
      refine ⟨ts₃, ⟨hF.inv, by simpa using hperm, fun hq => absurd rfl hq, fun x hx => ?_, hF.top_eq⟩,
        Nat.ne_of_gt hF.freep_pos, Or.inr ⟨rfl, hF.fits.mono (by simpa using hle)⟩⟩
      -- 前からの使用中の block は break より前にあるので、伸ばした header とは別
      obtain ⟨b, hb, rfl⟩ := mem_used.mp hx
      have hbb : b ≠ h.brk := by
        have := hv.bounds hb
        simp only at this
        omega
      rw [hF.size_used _ (hperm.mem_iff.mpr hx), Nat.add_sub_cancel, Heap.setSize_of_ne _ _ hbb]
  · -- `sbrk` が失敗すれば何も変えない
    rw [sbrk_of_gt hlt htop] at hm
    cases hm
    exact ⟨ts, hv.allocated_refl, hne, Or.inl rfl⟩

end Grow

/-! ## `malloc` -/

/-- `malloc` の最初の `if`：`freep` が 0 なら、`base` だけの輪を作る。 -/
def mallocInit (h : Heap) : Heap :=
  if h.freep = 0 then
    let h := h.setPtr h.base h.base
    let h := { h with freep := h.base }
    h.setSize h.base 0
  else h

@[simp] theorem mallocInit_brk (h : Heap) : (mallocInit h).brk = h.brk := by
  unfold mallocInit
  split <;> rfl

@[simp] theorem mallocInit_top (h : Heap) : (mallocInit h).top = h.top := by
  unfold mallocInit
  split <;> rfl

/-- 最初の `if` が書くのは `base` の header だけである。 -/
theorem mallocInit_hdr_of_ne {h : Heap} {y : Nat} (hy : y ≠ h.base) : (mallocInit h).hdr y = h.hdr y := by
  unfold mallocInit
  split
  · simp [Heap.setSize, Heap.setPtr, Function.update_of_ne hy]
  · rfl

theorem mallocInit_of_ne {h : Heap} (hne : h.freep ≠ 0) : mallocInit h = h := by
  simp [mallocInit, hne]

/-- `malloc` は、最初の `if` の後の heap で、`freep` とその次から loop を回す。 -/
theorem malloc_eq (fuel : Nat) (h : Heap) (nbytes : UInt32) :
    malloc fuel h nbytes =
      mallocLoop (nunitsOf nbytes) fuel (mallocInit h) (mallocInit h).freep
        ((mallocInit h).ptrAt (mallocInit h).freep) := rfl

section Malloc

variable {h h' : Heap} {h0 : Nat} {ts : List Blk}

/-- 最初の `malloc` が作る `base` だけの輪も、heap の形を満たす。 -/
theorem HeapInv.mallocInit {n : Nat} (hv : HeapInv h h0 ts) :
    Allocated h (Umalloc.mallocInit h) h0 n 0 ts ts ∧ (Umalloc.mallocInit h).freep ≠ 0 := by
  by_cases hz : h.freep = 0
  · -- block はまだなく、break は `h0` のまま
    obtain rfl := hv.empty hz
    have hbrk : h0 = h.brk := hv.tiled
    have hb : h.base ≠ 0 := Nat.ne_of_gt hv.base_pos
    simp only [Umalloc.mallocInit, hz, if_true]
    refine ⟨⟨?_, by simp, fun hq => absurd rfl hq, by simp, rfl⟩, hb⟩
    exact
      { base_pos := hv.base_pos
        base_lt := hv.base_lt
        tiled := hbrk
        brk_le := hv.brk_le
        empty := fun hz' => absurd hz' hb
        base_size := fun _ => by simp
        cycle := fun _ => by simp [Heap.ptrAt]
        freep_mem := fun _ => List.mem_cons_self
        coalesced := List.IsChain.nil }
  · simp only [Umalloc.mallocInit, hz, if_false]
    exact ⟨hv.allocated_refl, hz⟩

/--
**`malloc` の loop は形を保つ。** 輪の節点 `prevp` とその次から回る loop が `q` を返せば、その後の heap は
`Allocated` である。合う block を渡すか、`morecore` の後で回り続けるかを、fuel についての帰納法で追う。
-/
theorem HeapInv.mallocLoop_spec {n : UInt32} (hn : 0 < n.toNat) (hnu : n.toNat < 2 ^ 28) :
    ∀ {fuel : Nat} {h h' : Heap} {ts : List Blk} {prevp q : Nat}, HeapInv h h0 ts → h.freep ≠ 0 →
      prevp ∈ h.base :: frees ts → mallocLoop n fuel h prevp (h.ptrAt prevp) = .ok (h', q) →
      ∃ ts', Allocated h h' h0 n.toNat q ts ts'
  | 0, _, _, _, _, _, _, _, _, hm => by simp [mallocLoop] at hm
  | fuel + 1, h, h', ts, prevp, q, hv, hne, hprev, hm => by
    have hp : h.ptrAt prevp ∈ h.base :: frees ts := (hv.cycle hne).next_mem hprev
    unfold mallocLoop at hm
    split at hm
    · -- 合う block：`base` の大きさは 0 なので、空き block の一つ
      rename_i hfit
      have hpb : h.ptrAt prevp ≠ h.base := by
        intro he
        rw [he, hv.base_size hne] at hfit
        omega
      have hmem : ⟨h.ptrAt prevp, true⟩ ∈ ts := mem_frees.mp ((List.mem_cons.mp hp).resolve_left hpb)
      obtain ⟨pre, post, rfl⟩ := List.append_of_mem hmem
      split at hm
      · rename_i hexact
        simp only [Except.ok.injEq, Prod.mk.injEq] at hm
        obtain ⟨rfl, rfl⟩ := hm
        have hA := hv.take_exact hprev rfl
        rw [hexact] at hA
        exact ⟨_, hA⟩
      · rename_i hbig
        simp only [Heap.setSize_self, Except.ok.injEq, Prod.mk.injEq] at hm
        obtain ⟨rfl, rfl⟩ := hm
        exact ⟨_, hv.take_split hprev hn (Nat.lt_of_le_of_ne hfit (Ne.symm hbig))⟩
    · split at hm
      · -- `freep` に戻った：`morecore` で伸ばして回り続ける
        split at hm
        · cases hm
        · rename_i h₁ p₁ hmc
          obtain ⟨ts₁, hA, hne₁, hp₁⟩ := hv.morecore_spec hne hnu hmc
          split at hm
          · simp only [Except.ok.injEq, Prod.mk.injEq] at hm
            obtain ⟨rfl, rfl⟩ := hm
            exact ⟨ts₁, hA⟩
          · rename_i hz
            obtain ⟨rfl, -⟩ := hp₁.resolve_left hz
            obtain ⟨ts', hA'⟩ := mallocLoop_spec hn hnu hA.inv hne₁ (hA.inv.freep_mem hne₁) hm
            exact ⟨ts', hA.trans hA'⟩
      · exact mallocLoop_spec hn hnu hv hne hp hm

/-- 回らない要求の単位数は、0 でなく 2^28 未満。 -/
theorem nunitsOf_bounds {nbytes : UInt32} (hn : nbytes.toNat + 16 ≤ 2 ^ 31) :
    0 < (nunitsOf nbytes).toNat ∧ (nunitsOf nbytes).toNat < 2 ^ 28 := by
  rw [nunitsOf_toNat_of_lt (by omega)]
  omega

/--
**`malloc` は形を保つ。** `nbytes + 16 ≤ 2^31` の `malloc` が `q` を返せば、その後の heap は
`Allocated` で、`q` の block は `nunitsOf nbytes` 単位を持つ。
-/
theorem HeapInv.malloc_spec (hv : HeapInv h h0 ts) {nbytes : UInt32} (hn : nbytes.toNat + 16 ≤ 2 ^ 31)
    {fuel q : Nat} (hm : malloc fuel h nbytes = .ok (h', q)) :
    ∃ ts', Allocated h h' h0 (nunitsOf nbytes).toNat q ts ts' := by
  obtain ⟨hpos, hlt⟩ := nunitsOf_bounds hn
  obtain ⟨hA, hne⟩ := hv.mallocInit (n := (nunitsOf nbytes).toNat)
  rw [malloc_eq] at hm
  obtain ⟨ts', hA'⟩ := HeapInv.mallocLoop_spec hpos hlt hA.inv hne (hA.inv.freep_mem hne) hm
  exact ⟨ts', hA.trans hA'⟩

end Malloc

/-! ## `malloc` は止まる -/

section Progress

variable {h : Heap} {h0 : Nat} {ts : List Blk} {n : UInt32}

/-- 合う block に着けば、loop はそこで 0 でない pointer を返し、break は動かない。 -/
theorem mallocLoop_fit (k prevp : Nat) {p : Nat} (hfit : n.toNat ≤ (h.hdr p).size) :
    ∃ h' q, mallocLoop n (k + 1) h prevp p = .ok (h', q) ∧ q ≠ 0 ∧ h'.brk = h.brk := by
  rw [mallocLoop.eq_2, if_pos hfit]
  split
  · exact ⟨_, _, rfl, by simp [sizeofHeader], rfl⟩
  · exact ⟨_, _, rfl, by simp [sizeofHeader], rfl⟩

/-- 合わずに `freep` に戻り、`morecore` が止まれば、loop も同じ理由で止まる。 -/
theorem mallocLoop_morecore_error {k prevp : Nat} {e : Stop} (hfit : ¬n.toNat ≤ (h.hdr h.freep).size)
    (hmc : morecore k h n = .error e) : mallocLoop n (k + 1) h prevp h.freep = .error e := by
  simp only [mallocLoop.eq_2, hfit, if_false, if_true, hmc]

/--
合わずに `freep` に戻り、`morecore` が `p` を返せば、0 なら NULL を返し、そうでなければ `p` とその次から
回り続ける。
-/
theorem mallocLoop_morecore_ok {k prevp p : Nat} {h' : Heap} (hfit : ¬n.toNat ≤ (h.hdr h.freep).size)
    (hmc : morecore k h n = .ok (h', p)) :
    mallocLoop n (k + 1) h prevp h.freep =
      if p = 0 then .ok (h', 0) else mallocLoop n k h' p (h'.ptrAt p) := by
  simp only [mallocLoop.eq_2, hfit, if_false, if_true, hmc, Heap.ptrAt]

/--
loop を `prevp` と `p` の組の上の loop と見る：合う block か `freep` で止まり、そうでなければ組を
一つ進める。
-/
theorem mallocLoop_succ (k : Nat) (x : Nat × Nat) :
    mallocLoop n (k + 1) h x.1 x.2 =
      if n.toNat ≤ (h.hdr x.2).size ∨ x.2 = h.freep then mallocLoop n (k + 1) h x.1 x.2
      else mallocLoop n k h x.2 (h.ptrAt x.2) := by
  split
  · rfl
  · rename_i hnp
    rw [mallocLoop.eq_2, if_neg fun hc => hnp (Or.inl hc), if_neg fun hc => hnp (Or.inr hc)]
    rfl

/-- loop の `prevp` と `p` は、輪を一歩ずつ進む。 -/
theorem pair_iterate (h : Heap) (a : Nat) :
    ∀ j, (fun x : Nat × Nat => (x.2, h.ptrAt x.2))^[j] (a, h.ptrAt a) =
      (h.ptrAt^[j] a, h.ptrAt^[j + 1] a)
  | 0 => rfl
  | j + 1 => by
    rw [Function.iterate_succ_apply', pair_iterate h a j]
    simp only [Function.iterate_succ_apply']

/--
**一周のうちに止まる。** `freep` の次から回る loop は、空き block の数以下の歩数のうちに、初めて合う
block か `freep` に着く。
-/
theorem HeapInv.scan (hv : HeapInv h h0 ts) (hne : h.freep ≠ 0) :
    ∃ d ≤ (frees ts).length,
      (n.toNat ≤ (h.hdr (h.ptrAt^[d + 1] h.freep)).size ∨ h.ptrAt^[d + 1] h.freep = h.freep) ∧
      ∀ j < d, ¬(n.toNat ≤ (h.hdr (h.ptrAt^[j + 1] h.freep)).size ∨ h.ptrAt^[j + 1] h.freep = h.freep) := by
  classical
  have hcyc := hv.cycle hne
  have hf := hv.freep_mem hne
  -- `freep` の次から回れば、`frees ts` の長さ以下の歩数で `freep` に戻る
  obtain ⟨d₀, hd₀, hback, -⟩ := hcyc.reach_cycle hv.nodup (hcyc.next_mem hf) hf
  have hback' : h.ptrAt^[d₀ + 1] h.freep = h.freep := by
    rw [Function.iterate_succ_apply]
    exact hback
  have hex : ∃ j, n.toNat ≤ (h.hdr (h.ptrAt^[j + 1] h.freep)).size ∨ h.ptrAt^[j + 1] h.freep = h.freep :=
    ⟨d₀, Or.inr hback'⟩
  exact ⟨Nat.find hex, Nat.le_trans (Nat.find_min' hex (Or.inr hback')) hd₀, Nat.find_spec hex,
    fun j hj => Nat.find_min hex hj⟩

section Stop

variable {d : Nat}
  (hP : n.toNat ≤ (h.hdr (h.ptrAt^[d + 1] h.freep)).size ∨ h.ptrAt^[d + 1] h.freep = h.freep)
  (hbefore : ∀ j < d,
    ¬(n.toNat ≤ (h.hdr (h.ptrAt^[j + 1] h.freep)).size ∨ h.ptrAt^[j + 1] h.freep = h.freep))

include hP hbefore in
/-- 止まる所まで `d` 歩進めば、loop はそこから残りの fuel で続く。 -/
theorem mallocLoop_at_stop {fuel : Nat} (hd : d < fuel) :
    mallocLoop n fuel h h.freep (h.ptrAt h.freep) =
      mallocLoop n (fuel - d) h (h.ptrAt^[d] h.freep) (h.ptrAt^[d + 1] h.freep) := by
  have := @loop_iterate (Nat × Nat) _ (fun x => (x.2, h.ptrAt x.2))
    (fun x => n.toNat ≤ (h.hdr x.2).size ∨ x.2 = h.freep) _ (fun k x => mallocLoop n k h x.1 x.2)
    (fun k x => mallocLoop n (k + 1) h x.1 x.2) mallocLoop_succ d fuel (h.freep, h.ptrAt h.freep)
    (by rw [pair_iterate]; exact hP) (fun j hj => by rw [pair_iterate]; exact hbefore j hj) hd
  simp only [pair_iterate] at this
  rw [this]
  congr 1
  omega

include hbefore in
/-- 止まる所に着く前に fuel が尽きれば、loop は `.error .hang` で終わる。 -/
theorem mallocLoop_exhaust {fuel : Nat} (hd : fuel ≤ d) :
    mallocLoop n fuel h h.freep (h.ptrAt h.freep) = .error .hang := by
  have := @loop_exhaust (Nat × Nat) _ (fun x => (x.2, h.ptrAt x.2))
    (fun x => n.toNat ≤ (h.hdr x.2).size ∨ x.2 = h.freep) _ (fun k x => mallocLoop n k h x.1 x.2)
    (fun k x => mallocLoop n (k + 1) h x.1 x.2) mallocLoop_succ fuel (h.freep, h.ptrAt h.freep)
    (fun j hj => by rw [pair_iterate]; exact hbefore j (by omega))
  rw [this]
  rfl

include hP hbefore in
/-- `freep` かその次の block が合えば、最初に止まる所の block は合う。 -/
theorem FitsNear.fit_at_stop (hfits : FitsNear h n.toNat) :
    n.toNat ≤ (h.hdr (h.ptrAt^[d + 1] h.freep)).size := by
  rcases hfits with hf | hf
  · rcases hP with hP | hP
    · exact hP
    · rw [hP]
      exact hf
  · -- `freep` の次が合えば、最初の一歩で止まる
    cases d with
    | zero => exact hf
    | succ d => exact absurd (Or.inl hf) (hbefore 0 (Nat.succ_pos d))

include hbefore in
/--
**一周して合う block がなければ、どの block も小さい。** 初めて止まる所が合わない `freep` なら、
輪のどの節点の block も要求より小さい。
-/
theorem HeapInv.small_of_scan (hv : HeapInv h h0 ts) (hne : h.freep ≠ 0)
    (hret : h.ptrAt^[d + 1] h.freep = h.freep) (hfit : ¬n.toNat ≤ (h.hdr h.freep).size) :
    ∀ y ∈ h.base :: frees ts, (h.hdr y).size < n.toNat := by
  intro y hy
  have hcyc := hv.cycle hne
  -- `d + 1` 歩で戻る間に、輪のどの節点も通る
  obtain ⟨j, hj, rfl⟩ := hcyc.reach_within hv.nodup (hv.freep_mem hne) hret hy
  rcases Nat.lt_or_ge j d with hjd | hjd
  · exact Nat.lt_of_not_le fun hc => hbefore j hjd (Or.inl hc)
  · obtain rfl : j = d := Nat.le_antisymm hj hjd
    rw [hret]
    exact Nat.lt_of_not_le hfit

end Stop

/-- 空き block の数より多い fuel で、`morecore` は止まる。 -/
theorem HeapInv.morecore_ok (hv : HeapInv h h0 ts) (hne : h.freep ≠ 0) {nu : UInt32}
    (hnu : nu.toNat < 2 ^ 28) {fuel : Nat} (hfuel : (frees ts).length < fuel) :
    ∃ r, morecore fuel h nu = .ok r := by
  obtain ⟨-, hpos, hlt⟩ := grow_bounds hnu
  simp only [morecore]
  generalize (if nu < 4096 then 4096 else nu) = nu' at hpos hlt ⊢
  by_cases htop : h.brk + sizeofHeader * nu'.toNat ≤ h.top
  · rw [sbrk_of_le hlt htop]
    obtain ⟨h₃, hf⟩ := (hv.grow hne hpos htop).free_ok (by simpa using hfuel)
    simp only [hf]
    exact ⟨_, rfl⟩
  · rw [sbrk_of_gt hlt htop]
    exact ⟨_, rfl⟩

/-- `morecore` が 0 を返すのは、`sbrk` が失敗して何も変えなかった時だけである。 -/
theorem HeapInv.morecore_eq_zero (hv : HeapInv h h0 ts) (hne : h.freep ≠ 0) {nu : UInt32}
    (hnu : nu.toNat < 2 ^ 28) {fuel : Nat} {h' : Heap} (hm : morecore fuel h nu = .ok (h', 0)) :
    h' = h ∧ h.top < h.brk + sizeofHeader * max nu.toNat 4096 := by
  obtain ⟨-, hpos, hlt⟩ := grow_bounds hnu
  rw [← grow_toNat]
  simp only [morecore] at hm
  generalize (if nu < 4096 then 4096 else nu) = nu' at hm hpos hlt ⊢
  by_cases htop : h.brk + sizeofHeader * nu'.toNat ≤ h.top
  · -- 伸ばせば、伸ばした block を `free` した後の `freep` は 0 でない
    rw [sbrk_of_le hlt htop] at hm
    cases hf : free fuel ({ h with brk := h.brk + sizeofHeader * nu'.toNat }.setSize h.brk nu'.toNat)
        (h.brk + sizeofHeader) with
    | error e =>
      simp [hf] at hm
    | ok h₃ =>
      simp only [hf, bind, Except.bind, pure, Except.pure, Except.ok.injEq, Prod.mk.injEq] at hm
      obtain ⟨ts₃, hF⟩ := free_spec (hv.grow hne hpos htop) hf
      exact absurd hm.2 (Nat.ne_of_gt hF.freep_pos)
  · rw [sbrk_of_gt hlt htop] at hm
    cases hm
    exact ⟨rfl, by omega⟩

/--
`freep` かその次の block が合えば、空き block の数より多い fuel で、`freep` から回る loop は合う
block を返す：0 でない pointer で、break は動かない。
-/
theorem HeapInv.mallocLoop_of_fits (hv : HeapInv h h0 ts) (hne : h.freep ≠ 0)
    (hfits : FitsNear h n.toNat) {fuel : Nat} (hfuel : (frees ts).length < fuel) :
    ∃ h' q, mallocLoop n fuel h h.freep (h.ptrAt h.freep) = .ok (h', q) ∧ q ≠ 0 ∧ h'.brk = h.brk := by
  obtain ⟨d, hd, hP, hbefore⟩ := hv.scan (n := n) hne
  obtain ⟨k, hk⟩ : ∃ k, fuel - d = k + 1 := ⟨fuel - d - 1, by omega⟩
  rw [mallocLoop_at_stop hP hbefore (by omega), hk]
  exact mallocLoop_fit k _ (hfits.fit_at_stop hP hbefore)

/-- `freep` かその次の block が合えば、`freep` から回る loop は 0 を返さない。 -/
theorem HeapInv.mallocLoop_ne_zero (hv : HeapInv h h0 ts) (hne : h.freep ≠ 0)
    (hfits : FitsNear h n.toNat) {fuel q : Nat} {h' : Heap}
    (hm : mallocLoop n fuel h h.freep (h.ptrAt h.freep) = .ok (h', q)) : q ≠ 0 := by
  obtain ⟨d, -, hP, hbefore⟩ := hv.scan (n := n) hne
  by_cases hd : d < fuel
  · obtain ⟨k, hk⟩ : ∃ k, fuel - d = k + 1 := ⟨fuel - d - 1, by omega⟩
    rw [mallocLoop_at_stop hP hbefore hd, hk] at hm
    obtain ⟨h'', q'', hm', hq, -⟩ :=
      mallocLoop_fit k (h.ptrAt^[d] h.freep) (hfits.fit_at_stop hP hbefore)
    rw [hm'] at hm
    cases hm
    exact hq
  · rw [mallocLoop_exhaust hbefore (by omega)] at hm
    cases hm

/--
**`malloc` は止まる。** `nbytes + 16 ≤ 2^31` の `malloc` は、上限までに入る block の数の 2 倍と 2 の
fuel で必ず返る。一周目で合う block がなければ `morecore` し、伸ばした block で二周目に返る。
-/
theorem HeapInv.malloc_ok (hv : HeapInv h h0 ts) {nbytes : UInt32} (hn : nbytes.toNat + 16 ≤ 2 ^ 31)
    {fuel : Nat} (hfuel : 2 * ((h.top - h0) / sizeofHeader) + 2 ≤ fuel) :
    ∃ r, malloc fuel h nbytes = .ok r := by
  obtain ⟨-, hlt⟩ := nunitsOf_bounds hn
  obtain ⟨hA, hne⟩ := hv.mallocInit (n := 0)
  have hv₁ := hA.inv
  have hM : (frees ts).length ≤ (h.top - h0) / sizeofHeader := by
    simpa [hA.top_eq] using hv₁.frees_length_le
  rw [malloc_eq]
  obtain ⟨d, hd, hP, hbefore⟩ := hv₁.scan (n := nunitsOf nbytes) hne
  obtain ⟨k, hk⟩ : ∃ k, fuel - d = k + 1 := ⟨fuel - d - 1, by omega⟩
  rw [mallocLoop_at_stop hP hbefore (by omega), hk]
  by_cases hfit : (nunitsOf nbytes).toNat ≤
      ((Umalloc.mallocInit h).hdr ((Umalloc.mallocInit h).ptrAt^[d + 1] (Umalloc.mallocInit h).freep)).size
  · obtain ⟨_, _, hm, -⟩ :=
      mallocLoop_fit k ((Umalloc.mallocInit h).ptrAt^[d] (Umalloc.mallocInit h).freep) hfit
    exact ⟨_, hm⟩
  · -- 一周目は `freep` に戻った：`morecore` は止まり、伸ばした block で二周目は返る
    have hy := hP.resolve_left hfit
    rw [hy] at hfit ⊢
    obtain ⟨⟨h₂, p₂⟩, hmc⟩ : ∃ r, morecore k (Umalloc.mallocInit h) (nunitsOf nbytes) = .ok r :=
      hv₁.morecore_ok hne hlt (by omega)
    obtain ⟨ts₂, hA₂, hne₂, hp₂⟩ := hv₁.morecore_spec (n := 0) hne hlt hmc
    rw [mallocLoop_morecore_ok hfit hmc]
    split
    · exact ⟨_, rfl⟩
    · rename_i hz
      obtain ⟨rfl, hfits⟩ := hp₂.resolve_left hz
      have hM₂ : (frees ts₂).length ≤ (h.top - h0) / sizeofHeader := by
        simpa [hA₂.top_eq, hA.top_eq] using hA₂.inv.frees_length_le
      obtain ⟨_, _, hm, -⟩ :=
        hA₂.inv.mallocLoop_of_fits hne₂ hfits (show (frees ts₂).length < k by omega)
      exact ⟨_, hm⟩

/--
**`malloc` が NULL を返すのは、合う空き block がなく break を伸ばせない時だけ。** `nbytes + 16 ≤ 2^31`
の `malloc` が 0 を返せば、どの空き block も要求の単位数より小さく、`max nunits 4096` 単位を足した
break は上限を越え、break は動いていない。
-/
theorem HeapInv.malloc_null (hv : HeapInv h h0 ts) {nbytes : UInt32} (hn : nbytes.toNat + 16 ≤ 2 ^ 31)
    {fuel : Nat} {h' : Heap} (hm : malloc fuel h nbytes = .ok (h', 0)) :
    (∀ y ∈ frees ts, (h.hdr y).size < (nunitsOf nbytes).toNat) ∧
      h.top < h.brk + sizeofHeader * max (nunitsOf nbytes).toNat 4096 ∧ h'.brk = h.brk := by
  obtain ⟨-, hlt⟩ := nunitsOf_bounds hn
  obtain ⟨hA, hne⟩ := hv.mallocInit (n := 0)
  have hv₁ := hA.inv
  rw [malloc_eq] at hm
  obtain ⟨d, -, hP, hbefore⟩ := hv₁.scan (n := nunitsOf nbytes) hne
  -- fuel が尽きれば `.error` なので、loop は止まる所まで進む
  have hd : d < fuel := by
    refine Nat.lt_of_not_le fun hd => ?_
    rw [mallocLoop_exhaust hbefore hd] at hm
    cases hm
  obtain ⟨k, hk⟩ : ∃ k, fuel - d = k + 1 := ⟨fuel - d - 1, by omega⟩
  rw [mallocLoop_at_stop hP hbefore hd, hk] at hm
  -- 合う block で止まれば 0 は返らない
  have hfit : ¬(nunitsOf nbytes).toNat ≤
      ((Umalloc.mallocInit h).hdr ((Umalloc.mallocInit h).ptrAt^[d + 1] (Umalloc.mallocInit h).freep)).size := by
    intro hfit
    obtain ⟨_, _, hm', hq, -⟩ :=
      mallocLoop_fit k ((Umalloc.mallocInit h).ptrAt^[d] (Umalloc.mallocInit h).freep) hfit
    rw [hm'] at hm
    cases hm
    exact hq rfl
  have hy := hP.resolve_left hfit
  rw [hy] at hfit hm
  have hsmall := hv₁.small_of_scan hbefore hne hy hfit
  cases hmc : morecore k (Umalloc.mallocInit h) (nunitsOf nbytes) with
  | error e =>
    rw [mallocLoop_morecore_error hfit hmc] at hm
    cases hm
  | ok r =>
    obtain ⟨h₂, p₂⟩ := r
    rw [mallocLoop_morecore_ok hfit hmc] at hm
    split at hm
    · -- `sbrk` が失敗した：一周目の小ささと上限がそのまま残る
      rename_i hz
      subst hz
      obtain ⟨rfl, htop⟩ := hv₁.morecore_eq_zero hne hlt hmc
      cases hm
      refine ⟨fun y hy => ?_, by simpa using htop, by simp⟩
      have hyb : y ≠ h.base := Nat.ne_of_gt (Nat.lt_of_lt_of_le hv.base_lt (hv.free_bounds hy).1)
      rw [← mallocInit_hdr_of_ne hyb]
      exact hsmall y (List.mem_cons_of_mem _ hy)
    · -- 伸ばせた：二周目は合う block で止まり、0 は返らない
      rename_i hz
      obtain ⟨ts₂, hA₂, hne₂, hp₂⟩ := hv₁.morecore_spec (n := 0) hne hlt hmc
      obtain ⟨rfl, hfits⟩ := hp₂.resolve_left hz
      exact absurd rfl (hA₂.inv.mallocLoop_ne_zero hne₂ hfits hm)

end Progress

end Xv6.Umalloc

import Mathlib.Data.Nat.Bitwise
import Xv6Mount.Infra.Trace

/-!
# user の heap allocator

`umalloc.c` の allocator（`malloc`・`free`・`morecore`）。heap は byte address から header
`{ptr, size}` への表で、`size` は header（8 byte）を単位とする。`base` は静的な header、`freep` は
空き block の循環 list への pointer（0 は NULL）である。`sbrk` は break を上に伸ばすか失敗する。

`malloc(nbytes)` は必要な単位数 `nunits = (nbytes + 7)/8 + 1` を `uint` で計算する。
`nbytes + 7` が 2^32 を越えると回って `nunits = 1` になり、header だけの block が返る。
`malloc` が返す block の大きさはいつも `nunits` なので（`mallocLoop_size`）、
`2^32 - 7` 以上の要求には使える byte が一つもない block が返る（`malloc_huge_request_gets_no_bytes`）。
回らない要求には `nbytes` 以上の byte が返る（`malloc_usable_of_lt`）。

## 停止性

`free` の探索と `malloc` の loop は、壊れた list の上では止まらない。どちらも fuel を受け取り、
使い切れば `hang` で止める。
-/

namespace Xv6.Umalloc

open Infra

/-- `sizeof(Header)`。`ptr` と `size` の 8 byte（`Align` の `long` は 4 byte）。 -/
def sizeofHeader : Nat := 8

/-- `Header` の `s`。次の空き block への pointer と、header を含む block の単位数。 -/
structure Header where
  ptr : Nat
  size : Nat
  deriving DecidableEq, Repr

/-- user の heap：各 address の header、`freep`、静的な `base` の address、break とその上限。 -/
structure Heap where
  hdr : Nat → Header
  freep : Nat
  base : Nat
  brk : Nat
  top : Nat

/-- `a->s.ptr = v`。 -/
def Heap.setPtr (h : Heap) (a v : Nat) : Heap :=
  { h with hdr := Function.update h.hdr a { h.hdr a with ptr := v } }

/-- `a->s.size = v`。 -/
def Heap.setSize (h : Heap) (a v : Nat) : Heap :=
  { h with hdr := Function.update h.hdr a { h.hdr a with size := v } }

@[simp] theorem Heap.setPtr_size (h : Heap) (a v b : Nat) : ((h.setPtr a v).hdr b).size = (h.hdr b).size := by
  by_cases hb : b = a
  · subst hb
    simp [Heap.setPtr]
  · simp [Heap.setPtr, hb]

@[simp] theorem Heap.setSize_self (h : Heap) (a v : Nat) : ((h.setSize a v).hdr a).size = v := by
  simp [Heap.setSize]

@[simp] theorem Heap.setPtr_freep (h : Heap) (a v : Nat) : (h.setPtr a v).freep = h.freep := rfl

@[simp] theorem Heap.setSize_freep (h : Heap) (a v : Nat) : (h.setSize a v).freep = h.freep := rfl

/--
`sbrk(n)`。0 以上で上限に収まれば break を `n` byte 伸ばして古い break を返す。負の `n` と上限を
越える要求は失敗する（`(char*)-1`）。
-/
def sbrk (h : Heap) (n : Int32) : Option (Heap × Nat) :=
  if 0 ≤ n ∧ h.brk + n.toNatClampNeg ≤ h.top then some ({ h with brk := h.brk + n.toNatClampNeg }, h.brk)
  else none

/-! ## `free` -/

/--
`free` の探索の loop。`bp` が `p` と `p->s.ptr` の間に入るか、`p` が list の折り返し点で `bp` が
その外にあれば `p` を返す。
-/
def freeSearch (h : Heap) (bp : Nat) : Nat → Nat → Except Stop Nat
  | 0, _ => .error .hang
  | fuel + 1, p =>
    if bp > p && bp < (h.hdr p).ptr then .ok p
    else if p ≥ (h.hdr p).ptr && (bp > p || bp < (h.hdr p).ptr) then .ok p
    else freeSearch h bp fuel (h.hdr p).ptr

/-- `free(ap)`。block を address 順の位置に入れ、前後の空き block とつなげる。 -/
def free (fuel : Nat) (h : Heap) (ap : Nat) : Except Stop Heap := do
  let bp := ap - sizeofHeader
  let p ← freeSearch h bp fuel h.freep
  let h :=
    if bp + sizeofHeader * (h.hdr bp).size = (h.hdr p).ptr then
      let h := h.setSize bp ((h.hdr bp).size + (h.hdr (h.hdr p).ptr).size)
      h.setPtr bp (h.hdr (h.hdr p).ptr).ptr
    else h.setPtr bp (h.hdr p).ptr
  let h :=
    if p + sizeofHeader * (h.hdr p).size = bp then
      let h := h.setSize p ((h.hdr p).size + (h.hdr bp).size)
      h.setPtr p (h.hdr bp).ptr
    else h.setPtr p bp
  pure { h with freep := p }

/-! ## `morecore` と `malloc` -/

/-- `morecore(nu)`。少なくとも 4096 単位を `sbrk` して `free` し、`freep` を返す。失敗は 0。 -/
def morecore (fuel : Nat) (h : Heap) (nu : UInt32) : Except Stop (Heap × Nat) := do
  let nu := if nu < 4096 then 4096 else nu
  match sbrk h (nu * sizeofHeader.toUInt32).toInt32 with
  | none => pure (h, 0)
  | some (h, p) =>
    let h := h.setSize p nu.toNat
    let h ← free fuel h (p + sizeofHeader)
    pure (h, h.freep)

/-- `malloc` の単位数。`uint` で計算するので、`nbytes + 7` は 2^32 を法とする。 -/
def nunitsOf (nbytes : UInt32) : UInt32 :=
  (nbytes + sizeofHeader.toUInt32 - 1) / sizeofHeader.toUInt32 + 1

/--
`malloc` の loop。`p` が十分大きければ、ちょうどなら list から外し、大きければ後ろから切り出す。
一周して `freep` に戻ると `morecore` する。
-/
def mallocLoop (nunits : UInt32) : Nat → Heap → Nat → Nat → Except Stop (Heap × Nat)
  | 0, _, _, _ => .error .hang
  | fuel + 1, h, prevp, p =>
    if (h.hdr p).size ≥ nunits.toNat then
      if (h.hdr p).size = nunits.toNat then
        let h := h.setPtr prevp (h.hdr p).ptr
        .ok ({ h with freep := prevp }, p + sizeofHeader)
      else
        let h := h.setSize p ((h.hdr p).size - nunits.toNat)
        let p := p + sizeofHeader * (h.hdr p).size
        let h := h.setSize p nunits.toNat
        .ok ({ h with freep := prevp }, p + sizeofHeader)
    else if p = h.freep then
      match morecore fuel h nunits with
      | .error e => .error e
      | .ok (h, p) =>
        if p = 0 then .ok (h, 0)
        else mallocLoop nunits fuel h p (h.hdr p).ptr
    else mallocLoop nunits fuel h p (h.hdr p).ptr

/-- `malloc(nbytes)`。最初の呼び出しでは `base` だけの list を作る。0 は NULL。 -/
def malloc (fuel : Nat) (h : Heap) (nbytes : UInt32) : Except Stop (Heap × Nat) :=
  let nunits := nunitsOf nbytes
  let h :=
    if h.freep = 0 then
      let h := h.setPtr h.base h.base
      let h := { h with freep := h.base }
      h.setSize h.base 0
    else h
  mallocLoop nunits fuel h h.freep (h.hdr h.freep).ptr

/-- `malloc` が返した `q` の block で、user が使える byte の数。header の 8 byte を除く。 -/
def usable (h : Heap) (q : Nat) : Nat := sizeofHeader * ((h.hdr (q - sizeofHeader)).size - 1)

/-! ## 返る block の大きさ -/

/-- `mallocLoop` が返す block の header は、ちょうど `nunits` 単位を持つ。 -/
theorem mallocLoop_size {nunits : UInt32} :
    ∀ {fuel : Nat} {h h' : Heap} {prevp p q : Nat}, mallocLoop nunits fuel h prevp p = .ok (h', q) →
      q ≠ 0 → (h'.hdr (q - sizeofHeader)).size = nunits.toNat
  | 0, _, _, _, _, _, hm, _ => by simp [mallocLoop] at hm
  | fuel + 1, h, h', prevp, p, q, hm, hq => by
    unfold mallocLoop at hm
    split at hm
    · -- 見つかった block：ちょうどなら外し、大きければ後ろを切り出す
      split at hm
      · rename_i heq
        simp only [Except.ok.injEq, Prod.mk.injEq] at hm
        obtain ⟨rfl, rfl⟩ := hm
        simp [heq]
      · simp only [Except.ok.injEq, Prod.mk.injEq] at hm
        obtain ⟨rfl, rfl⟩ := hm
        simp
    · split at hm
      · -- `morecore` の後は、伸ばした heap で loop を続ける
        split at hm
        · cases hm
        · split at hm
          · simp only [Except.ok.injEq, Prod.mk.injEq] at hm
            exact absurd hm.2.symm hq
          · exact mallocLoop_size hm hq
      · exact mallocLoop_size hm hq

/-- `malloc` が返す block の header は、ちょうど `nunitsOf nbytes` 単位を持つ。 -/
theorem malloc_size {fuel : Nat} {h h' : Heap} {nbytes : UInt32} {q : Nat}
    (hm : malloc fuel h nbytes = .ok (h', q)) (hq : q ≠ 0) :
    (h'.hdr (q - sizeofHeader)).size = (nunitsOf nbytes).toNat :=
  mallocLoop_size hm hq

/-- `nbytes + 7` が回らなければ、単位数は `(nbytes + 7)/8 + 1` である。 -/
theorem nunitsOf_toNat_of_lt {nbytes : UInt32} (hn : nbytes.toNat + 7 < 2 ^ 32) :
    (nunitsOf nbytes).toNat = (nbytes.toNat + 7) / 8 + 1 := by
  simp only [nunitsOf, sizeofHeader, UInt32.toNat_add, UInt32.toNat_div, UInt32.toNat_sub,
    UInt32.toNat_ofNat, Nat.toUInt32_eq, UInt32.toNat_ofNat', Nat.reducePow, Nat.reduceMod]
  omega

/-- `nbytes + 7` が回れば、単位数は header だけの 1 である。 -/
theorem nunitsOf_of_huge {nbytes : UInt32} (hn : 2 ^ 32 - 7 ≤ nbytes.toNat) : nunitsOf nbytes = 1 := by
  have hlt := nbytes.toNat_lt
  apply UInt32.toNat_inj.mp
  simp only [nunitsOf, sizeofHeader, UInt32.toNat_add, UInt32.toNat_div, UInt32.toNat_sub,
    UInt32.toNat_ofNat, Nat.toUInt32_eq, UInt32.toNat_ofNat', Nat.reducePow, Nat.reduceMod]
  omega

/-- 回らない要求では、`malloc` が返す block に `nbytes` 以上の byte がある。 -/
theorem malloc_usable_of_lt {fuel : Nat} {h h' : Heap} {nbytes : UInt32} {q : Nat}
    (hn : nbytes.toNat + 7 < 2 ^ 32) (hm : malloc fuel h nbytes = .ok (h', q)) (hq : q ≠ 0) :
    nbytes.toNat ≤ usable h' q := by
  unfold usable
  rw [malloc_size hm hq, nunitsOf_toNat_of_lt hn, sizeofHeader]
  omega

/--
**2^32 - 7 以上の要求には、使える byte のない block が返る。** どの heap の状態でも、
`nbytes ≥ 2^32 - 7` の `malloc` が NULL でない `q` を返せば、その block は header だけの 1 単位で、
user が使える byte は 0 である。
-/
theorem malloc_huge_request_gets_no_bytes {fuel : Nat} {h h' : Heap} {nbytes : UInt32} {q : Nat}
    (hn : 2 ^ 32 - 7 ≤ nbytes.toNat) (hm : malloc fuel h nbytes = .ok (h', q)) (hq : q ≠ 0) :
    (h'.hdr (q - sizeofHeader)).size = 1 ∧ usable h' q = 0 ∧ usable h' q < nbytes.toNat := by
  have hsize : (h'.hdr (q - sizeofHeader)).size = 1 := by
    rw [malloc_size hm hq, nunitsOf_of_huge hn]
    rfl
  have hu : usable h' q = 0 := by
    rw [usable, hsize, Nat.sub_self, Nat.mul_zero]
  refine ⟨hsize, hu, ?_⟩
  rw [hu]
  omega

/-- 空の heap（`base` は 8、break は 4096）で、最初の `malloc(0xFFFFFFFF)`。 -/
def emptyHeap : Heap := ⟨fun _ => ⟨0, 0⟩, 0, 8, 4096, 1 <<< 20⟩

/--
空の heap で `malloc(0xFFFFFFFF)` は `morecore` の 4096 単位の末尾から 1 単位を切り出し、
break の位置そのもの（36864）を返す。使える byte は 0 である。
-/
theorem malloc_max_at_empty_heap :
    ∃ h' q, 2 ^ 32 - 7 ≤ (0xFFFFFFFF : UInt32).toNat ∧ malloc 4 emptyHeap 0xFFFFFFFF = .ok (h', q) ∧
      q ≠ 0 ∧ q = h'.brk ∧
      ((h'.hdr (q - sizeofHeader)).size = 1 ∧ usable h' q = 0 ∧ usable h' q < (0xFFFFFFFF : UInt32).toNat) := by
  obtain ⟨h', q, hm, hq, hbrk⟩ : ∃ h' q, malloc 4 emptyHeap 0xFFFFFFFF = .ok (h', q) ∧ q = 36864 ∧
      h'.brk = 36864 := ⟨_, _, rfl, rfl, rfl⟩
  have hq0 : q ≠ 0 := by
    rw [hq]
    decide
  exact ⟨h', q, by decide, hm, hq0, hq.trans hbrk.symm,
    malloc_huge_request_gets_no_bytes (by decide) hm hq0⟩

end Xv6.Umalloc

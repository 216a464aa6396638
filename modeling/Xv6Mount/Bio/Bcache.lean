import Xv6Mount.Bio.Cache
import Xv6Mount.Infra.DList

/-!
# `bcache` の pointer（`bio.c`）

`Xv6Mount/Bio.lean` は buffer cache を、MRU 側から並べた buffer の列で表した。ここでは `bcache` を
C のとおりに表す。`bcache.buf[i]` の欄と、`bcache.head` を含む各節点の `next`・`prev` である。

`binit` は `head` だけの環に `buf[0]`, …, `buf[NBUF-1]` を順に先頭へつなぐ。`bget` の二つの loop は
`head.next` から `next` で、`head.prev` から `prev` でたどり、`head` に戻れば止まる。buffer は
`NBUF` 個しかないので、`NBUF` 個の buffer を見ても `head` に戻らなければ、同じ buffer を回り続けて
止まらない（`.hang`）。`brelse` は `refcnt` が 0 になった buffer を外して、先頭につなぎ直す。

* `Bcache.Wf` — `head` からの環が、順 `ids` で各 buffer をちょうど一度ずつ通る。`ids` は幽霊の引数で、
  環が一つに決める
* `Bcache.bget_refines`・`Bcache.Wf.brelse` — 環をたどった列の上で、
  各操作は `Bio.lean` の列の操作である
* `BcacheReach` — `binit` の後、どの process の `bget`・`brelse`・flag の書き換えが、どの順に
  交互に起こっても到達できる状態
-/

namespace Xv6

open Infra

/-- `bcache` の中を指す `struct buf *`：`&bcache.head` か `&bcache.buf[i]`。 -/
inductive BufPtr where
  | head
  | buf (i : Nat)
deriving DecidableEq, Repr

/-- `bcache`。`buf i` は `bcache.buf[i]` の欄で、その `Buf.id` は添字 `i` である。 -/
structure Bcache where
  buf : Nat → Buf
  next : BufPtr → BufPtr
  prev : BufPtr → BufPtr

/-- 0 で初期化された `bcache.buf[i]`。 -/
def Buf.zero (i : Nat) : Buf :=
  { id := i, dev := 0, blockno := 0, valid := false, dirty := false, refcnt := 0 }

namespace Bcache

/-- `binit` の前の `bcache`。pointer は `binit` がすべて書くので、どの値でもよい。 -/
def zero : Bcache := ⟨Buf.zero, fun _ => .head, fun _ => .head⟩

/-- `b->next = v`。 -/
def setNext (c : Bcache) (b v : BufPtr) : Bcache := { c with next := Function.update c.next b v }

/-- `b->prev = v`。 -/
def setPrev (c : Bcache) (b v : BufPtr) : Bcache := { c with prev := Function.update c.prev b v }

/-- buffer `i` の欄を `f` で書き換える。 -/
def modifyBuf (c : Bcache) (i : Nat) (f : Buf → Buf) : Bcache :=
  { c with buf := Function.update c.buf i (f (c.buf i)) }

/-- `b` を `head` の直後につなぐ。`binit` の loop の本体と、`brelse` の後半である。 -/
def linkFront (c : Bcache) (b : BufPtr) : Bcache :=
  let c := c.setNext b (c.next .head)
  let c := c.setPrev b .head
  let c := c.setPrev (c.next .head) b
  c.setNext .head b

/-- `b` を外して前後をつなぐ。`brelse` の前半である。 -/
def unlink (c : Bcache) (b : BufPtr) : Bcache :=
  let c := c.setPrev (c.next b) (c.prev b)
  c.setNext (c.prev b) (c.next b)

/-- `binit`。 -/
def binit : Bcache :=
  let c := (zero.setPrev .head .head).setNext .head .head
  (List.range NBUF).foldl (fun c i => c.linkFront (.buf i)) c

/-- `bget` の一つ目の loop が探す buffer：同じ block を持つもの。 -/
def hit (c : Bcache) (dev blockno : Nat) : BufPtr → Option Nat
  | .buf i => if (c.buf i).dev = dev ∧ (c.buf i).blockno = blockno then some i else none
  | .head => none

/-- 二つ目の loop が探す buffer：参照されておらず、`B_DIRTY` でないもの。 -/
def free (c : Bcache) : BufPtr → Option Nat
  | .buf i => if (c.buf i).refcnt = 0 ∧ (c.buf i).dirty = false then some i else none
  | .head => none

/-- `bget`。見つけた buffer の添字を返す。 -/
def bget (c : Bcache) (dev blockno : Nat) : Except Stop (Bcache × Nat) :=
  match ringFind c.next .head (c.hit dev blockno) NBUF (c.next .head) with
  | some (some i) => .ok (c.modifyBuf i fun b => { b with refcnt := b.refcnt + 1 }, i)
  | some none =>
    match ringFind c.prev .head c.free NBUF (c.prev .head) with
    | some (some i) =>
      .ok (c.modifyBuf i fun b =>
        { b with dev := dev, blockno := blockno, valid := false, dirty := false, refcnt := 1 }, i)
    | some none => .error (.panic "bget: no buffers")
    | none => .error .hang
  | none => .error .hang

/-- `brelse`。`refcnt` が 0 になれば、外して `head` の直後につなぐ。 -/
def brelse (c : Bcache) (i : Nat) : Bcache :=
  let c := c.modifyBuf i fun b => { b with refcnt := b.refcnt - 1 }
  if (c.buf i).refcnt = 0 then (c.unlink (.buf i)).linkFront (.buf i) else c

/-- `B_VALID` を立て `B_DIRTY` を下ろす（`iderw` と `loopdev_read` の終わり）。 -/
def setValid (c : Bcache) (i : Nat) : Bcache :=
  c.modifyBuf i fun b => { b with valid := true, dirty := false }

/-- `B_DIRTY` を立てる（`log_write` と `bwrite`）。 -/
def setDirty (c : Bcache) (i : Nat) : Bcache := c.modifyBuf i fun b => { b with dirty := true }

/-- 環を順 `ids` でたどったときの、`Bio.lean` の buffer の列。 -/
def bufs (c : Bcache) (ids : List Nat) : List Buf := ids.map c.buf

/-! ## 欄の書き換え -/

section fields

variable (c : Bcache) (b v : BufPtr)

@[simp] theorem setNext_buf : (c.setNext b v).buf = c.buf := rfl

@[simp] theorem setPrev_buf : (c.setPrev b v).buf = c.buf := rfl

@[simp] theorem linkFront_buf : (c.linkFront b).buf = c.buf := rfl

@[simp] theorem unlink_buf : (c.unlink b).buf = c.buf := rfl

@[simp] theorem modifyBuf_next (i : Nat) (f : Buf → Buf) : (c.modifyBuf i f).next = c.next := rfl

@[simp] theorem modifyBuf_prev (i : Nat) (f : Buf → Buf) : (c.modifyBuf i f).prev = c.prev := rfl

theorem modifyBuf_buf (i : Nat) (f : Buf → Buf) (j : Nat) :
    (c.modifyBuf i f).buf j = if j = i then f (c.buf i) else c.buf j := by
  by_cases h : j = i
  · subst h
    simp [modifyBuf]
  · simp [modifyBuf, h]

end fields


/-! ## 表現の不変条件 -/

/--
表現の不変条件。`head` から `next` でたどる環が、順 `ids` で各 buffer をちょうど一度ずつ通り、
`prev` は一つ前を指す。`buf i` の `id` は `i` で、環にない添字の欄は 0 のままである。
-/
structure Wf (c : Bcache) (ids : List Nat) : Prop where
  ring : Ring c.next c.prev .head (ids.map .buf)
  perm : ids.Perm (List.range NBUF)
  id_eq : ∀ i, (c.buf i).id = i
  outside : ∀ i, i ∉ ids → c.buf i = Buf.zero i

namespace Wf

variable {c : Bcache} {ids : List Nat}

theorem nodup (hw : c.Wf ids) : ids.Nodup :=
  (List.nodup_cons.mp hw.ring.nodup).2.of_map _

theorem head_not_mem (hw : c.Wf ids) : BufPtr.head ∉ ids.map .buf :=
  (List.nodup_cons.mp hw.ring.nodup).1

theorem length_le (hw : c.Wf ids) : (ids.map BufPtr.buf).length ≤ NBUF := by
  rw [List.length_map, hw.perm.length_eq, List.length_range]

theorem map_id (hw : c.Wf ids) : (c.bufs ids).map Buf.id = ids := by
  simp [bufs, Function.comp_def, hw.id_eq]

theorem nodup_bufs (hw : c.Wf ids) : ((c.bufs ids).map Buf.id).Nodup := by
  rw [hw.map_id]
  exact hw.nodup

/-- 列の buffer は、その `id` の欄である。 -/
theorem eq_of_mem (hw : c.Wf ids) {x : Buf} (hx : x ∈ c.bufs ids) : x = c.buf x.id ∧ x.id ∈ ids := by
  obtain ⟨i, hi, rfl⟩ := List.mem_map.mp hx
  rw [hw.id_eq]
  exact ⟨rfl, hi⟩

/-- 生きている buffer は環の中にある。 -/
theorem mem_of_live (hw : c.Wf ids) {i : Nat} (h : (c.buf i).live) : i ∈ ids := by
  by_contra hi
  rw [hw.outside i hi] at h
  simp [Buf.live, Buf.zero] at h

/-- 環の中の buffer の欄だけを、`id` を変えずに書き換える。 -/
theorem modifyBuf (hw : c.Wf ids) {i : Nat} (hi : i ∈ ids) {f : Buf → Buf}
    (hf : ∀ b, (f b).id = b.id) : (c.modifyBuf i f).Wf ids where
  ring := hw.ring
  perm := hw.perm
  id_eq j := by
    rw [modifyBuf_buf]
    split
    · rename_i h
      subst h
      rw [hf, hw.id_eq]
    · exact hw.id_eq j
  outside j hj := by
    rw [modifyBuf_buf, if_neg fun e : j = i => hj (e ▸ hi)]
    exact hw.outside j hj

end Wf

/-! ## 二つの探索 -/

section scan

variable {c : Bcache} {ids : List Nat} {dev blockno : Nat}

theorem findSome?_hit (hid : ∀ i, (c.buf i).id = i) (ids : List Nat) :
    (ids.map BufPtr.buf).findSome? (c.hit dev blockno) =
      (cachedBuf (c.bufs ids) dev blockno).map Buf.id := by
  induction ids with
  | nil => rfl
  | cons i ids ih =>
    by_cases h : (c.buf i).dev = dev ∧ (c.buf i).blockno = blockno
    · simp [bufs, cachedBuf, hit, h, hid]
    · simp only [bufs, cachedBuf] at ih
      simp only [List.map_cons, List.findSome?_cons, hit, if_neg h, bufs, cachedBuf, List.find?_cons]
      have hb : ((c.buf i).dev == dev && (c.buf i).blockno == blockno) = false := by simpa using h
      rw [hb]
      exact ih

theorem findSome?_free (hid : ∀ i, (c.buf i).id = i) (ids : List Nat) :
    (ids.map BufPtr.buf).findSome? c.free =
      ((ids.map c.buf).find? fun b => b.refcnt == 0 && !b.dirty).map Buf.id := by
  induction ids with
  | nil => rfl
  | cons i ids ih =>
    by_cases h : (c.buf i).refcnt = 0 ∧ (c.buf i).dirty = false
    · simp [free, h, hid]
    · simp only [List.map_cons, List.findSome?_cons, free, if_neg h, List.find?_cons]
      have hb : ((c.buf i).refcnt == 0 && !(c.buf i).dirty) = false := by simpa using h
      rw [hb]
      exact ih

/-- 一つ目の loop は、列の上の一つ目の探索である。 -/
theorem ringFind_hit (hw : c.Wf ids) :
    ringFind c.next .head (c.hit dev blockno) NBUF (c.next .head) =
      some ((cachedBuf (c.bufs ids) dev blockno).map Buf.id) := by
  rw [ringFind_eq hw.ring.seg hw.head_not_mem hw.length_le, findSome?_hit hw.id_eq]

/-- 二つ目の loop は `prev` で逆順にたどり、列の上の二つ目の探索である。 -/
theorem ringFind_free (hw : c.Wf ids) :
    ringFind c.prev .head c.free NBUF (c.prev .head) = some ((recyclableBuf (c.bufs ids)).map Buf.id) := by
  have hs := hw.ring.seg.reverse
  rw [ringFind_eq hs (by simp) (by simpa using hw.length_le), ← List.map_reverse,
    findSome?_free hw.id_eq, recyclableBuf, bufs, List.map_reverse]

theorem bufs_modifyBuf (hid : ∀ i, (c.buf i).id = i) (ids : List Nat) (i : Nat) (f : Buf → Buf) :
    (c.modifyBuf i f).bufs ids = updBuf (c.bufs ids) i f := by
  unfold bufs updBuf
  rw [List.map_map]
  refine List.map_congr_left fun j _ => ?_
  simp only [Function.comp_apply, modifyBuf_buf, hid]
  by_cases h : j = i
  · subst h
    rfl
  · simp [h]

end scan

/-! ## 各操作は列の操作である -/

section refines

variable {c c' : Bcache} {ids : List Nat} {dev blockno i : Nat}

/-- **`bget` は列の `bget` である。** 環をたどった列の上で、同じ buffer を同じように書き換える。 -/
theorem bget_refines (hw : c.Wf ids) (dev blockno : Nat) :
    (c.bget dev blockno).map (fun p => (p.1.bufs ids, p.2)) = Xv6.bget (c.bufs ids) dev blockno := by
  unfold bget Xv6.bget
  rw [ringFind_hit hw, ringFind_free hw]
  cases cachedBuf (c.bufs ids) dev blockno with
  | some b => simp [bufs_modifyBuf hw.id_eq, Except.map]
  | none =>
    cases recyclableBuf (c.bufs ids) with
    | some b => simp [bufs_modifyBuf hw.id_eq, Except.map]
    | none => rfl

/--
`bget` の二つの場合を、環をたどった列の言葉で言う。一つ目の探索が見つけた buffer の `refcnt` を
増やすか、一つ目の探索が何も見つけず、二つ目の探索が見つけた buffer を付け替えるか、である。
-/
theorem bget_cases_ptr (hw : c.Wf ids) (h : c.bget dev blockno = .ok (c', i)) :
    (∃ b, cachedBuf (c.bufs ids) dev blockno = some b ∧ i = b.id ∧
        c' = c.modifyBuf i fun x => { x with refcnt := x.refcnt + 1 }) ∨
    (cachedBuf (c.bufs ids) dev blockno = none ∧ ∃ b, recyclableBuf (c.bufs ids) = some b ∧ i = b.id ∧
        c' = c.modifyBuf i fun x =>
          { x with dev := dev, blockno := blockno, valid := false, dirty := false, refcnt := 1 }) := by
  unfold bget at h
  rw [ringFind_hit hw, ringFind_free hw] at h
  cases hc : cachedBuf (c.bufs ids) dev blockno with
  | some b =>
    rw [hc] at h
    cases h
    exact .inl ⟨b, rfl, rfl, rfl⟩
  | none =>
    rw [hc] at h
    cases hr : recyclableBuf (c.bufs ids) with
    | some b =>
      rw [hr] at h
      cases h
      exact .inr ⟨rfl, b, rfl, rfl, rfl⟩
    | none =>
      rw [hr] at h
      cases h

theorem Wf.bget (hw : c.Wf ids) (h : c.bget dev blockno = .ok (c', i)) :
    c'.Wf ids ∧ Xv6.bget (c.bufs ids) dev blockno = .ok (c'.bufs ids, i) := by
  have hl : Xv6.bget (c.bufs ids) dev blockno = .ok (c'.bufs ids, i) := by
    rw [← bget_refines hw, h]
    rfl
  refine ⟨?_, hl⟩
  -- 返す buffer は列の中にある
  rcases bget_cases_ptr hw h with ⟨b, hb, rfl, rfl⟩ | ⟨-, b, hr, rfl, rfl⟩
  · exact hw.modifyBuf (hw.eq_of_mem (cachedBuf_spec hb).1).2 fun _ => rfl
  · exact hw.modifyBuf (hw.eq_of_mem (recyclableBuf_spec hr).1).2 fun _ => rfl

/--
`bget` の結果を欄で言う。pointer は変わらず、返す buffer のほかは欄も変わらない。返す buffer は、
同じ block を持っていて `refcnt` を増やしたものか、生きた buffer がその block を持たないときに、
参照されておらず dirty でない buffer を付け替えたものである。
-/
theorem Wf.bget_fields (hw : c.Wf ids) (h : c.bget dev blockno = .ok (c', i)) :
    c'.next = c.next ∧ c'.prev = c.prev ∧ (∀ j, j ≠ i → c'.buf j = c.buf j) ∧
      (((c.buf i).dev = dev ∧ (c.buf i).blockno = blockno ∧
          c'.buf i = { c.buf i with refcnt := (c.buf i).refcnt + 1 }) ∨
        ((∀ j, (c.buf j).live → ¬((c.buf j).dev = dev ∧ (c.buf j).blockno = blockno)) ∧
          (c.buf i).refcnt = 0 ∧ (c.buf i).dirty = false ∧
          c'.buf i =
            { c.buf i with dev := dev, blockno := blockno, valid := false, dirty := false, refcnt := 1 })) := by
  rcases bget_cases_ptr hw h with ⟨b, hb, rfl, rfl⟩ | ⟨hnone, b, hr, rfl, rfl⟩
  · obtain ⟨hbm, hdev, hbn⟩ := cachedBuf_spec hb
    have hbe : c.buf b.id = b := (hw.eq_of_mem hbm).1.symm
    refine ⟨rfl, rfl, fun j hj => by rw [modifyBuf_buf, if_neg hj], .inl ⟨?_, ?_, ?_⟩⟩
    · rw [hbe]
      exact hdev
    · rw [hbe]
      exact hbn
    · rw [modifyBuf_buf, if_pos rfl]
  · obtain ⟨hbm, hz, hd⟩ := recyclableBuf_spec hr
    have hbe : c.buf b.id = b := (hw.eq_of_mem hbm).1.symm
    refine ⟨rfl, rfl, fun j hj => by rw [modifyBuf_buf, if_neg hj], .inr ⟨fun j hj => ?_, ?_, ?_, ?_⟩⟩
    · -- 一つ目の探索は環を一周して、どの生きた buffer もその block を持たないことを見た
      exact cachedBuf_eq_none hnone _ (List.mem_map_of_mem (hw.mem_of_live hj))
    · rw [hbe]
      exact hz
    · rw [hbe]
      exact hd
    · rw [modifyBuf_buf, if_pos rfl]

/--
`brelse` の後、環をたどる順。`refcnt` が 0 になれば `i` が先頭に移り、ほかは順を保つ。
そうでなければ順は変わらない。
-/
def brelseIds (c : Bcache) (ids : List Nat) (i : Nat) : List Nat :=
  if (c.buf i).refcnt - 1 = 0 then i :: ids.erase i else ids

@[simp] theorem relink_buf (c : Bcache) (b : BufPtr) : ((c.unlink b).linkFront b).buf = c.buf := rfl

/-- `brelse` が書き換える欄は、`refcnt` を減らすことだけである。 -/
theorem brelse_buf (c : Bcache) (i j : Nat) :
    (c.brelse i).buf j = if j = i then { c.buf i with refcnt := (c.buf i).refcnt - 1 } else c.buf j := by
  have h : (c.brelse i).buf = (c.modifyBuf i fun b => { b with refcnt := b.refcnt - 1 }).buf := by
    unfold Bcache.brelse
    dsimp only
    split <;> rfl
  rw [h, modifyBuf_buf]

theorem brelse_refcnt (c : Bcache) (i : Nat) : ((c.brelse i).buf i).refcnt = (c.buf i).refcnt - 1 := by
  rw [brelse_buf, if_pos rfl]

theorem Wf.filter_ne (hw : c.Wf ids) (i : Nat) :
    (c.bufs ids).filter (·.id != i) = (ids.erase i).map c.buf := by
  rw [hw.nodup.erase_eq_filter, bufs, List.filter_map]
  congr 1
  refine List.filter_congr fun j _ => ?_
  simp [hw.id_eq]

/-- 外してつなぎ直すと、`i` が先頭に移り、ほかの順は保たれる。 -/
theorem Wf.relink (hw : c.Wf ids) (hi : i ∈ ids) :
    ((c.unlink (.buf i)).linkFront (.buf i)).Wf (i :: ids.erase i) := by
  obtain ⟨pre, post, rfl⟩ := List.append_of_mem hi
  have hnd : (i :: (pre ++ post)).Nodup := List.nodup_middle.mp hw.nodup
  have hnot : i ∉ pre ++ post := (List.nodup_cons.mp hnd).1
  have herase : (pre ++ i :: post).erase i = pre ++ post := by
    rw [List.erase_append_right _ fun h => hnot (List.mem_append_left _ h), List.erase_cons_head]
  have hr : Ring c.next c.prev .head (pre.map .buf ++ .buf i :: post.map .buf) := by
    have h := hw.ring
    rwa [List.map_append, List.map_cons] at h
  have hx : BufPtr.buf i ∉ .head :: (pre.map .buf ++ post.map .buf) := by
    simp only [List.mem_cons, reduceCtorEq, List.mem_append, List.mem_map, BufPtr.buf.injEq,
      exists_eq_right, false_or]
    simpa using hnot
  refine ⟨?_, ?_, hw.id_eq, fun j hj => hw.outside j fun hj' => hj ?_⟩
  · rw [herase, List.map_cons, List.map_append]
    exact hr.unlink.linkFront hx
  · rw [herase]
    exact List.perm_middle.symm.trans hw.perm
  · rw [herase]
    rcases List.mem_append.mp hj' with h | h
    · exact List.mem_cons_of_mem _ (List.mem_append_left _ h)
    · rcases List.mem_cons.mp h with rfl | h
      · exact List.mem_cons_self
      · exact List.mem_cons_of_mem _ (List.mem_append_right _ h)

/--
**`brelse` は列の `brelse` である。** 環の順は `brelseIds` に変わり、その順でたどった列は、
`Bio.lean` の `brelse` が返す列である。
-/
theorem Wf.brelse (hw : c.Wf ids) (hi : i ∈ ids) :
    (c.brelse i).Wf (brelseIds c ids i) ∧
      (c.brelse i).bufs (brelseIds c ids i) = Xv6.brelse (c.bufs ids) i := by
  have hw₁ : (c.modifyBuf i fun b => { b with refcnt := b.refcnt - 1 }).Wf ids :=
    hw.modifyBuf hi fun _ => rfl
  have hb₁ : ((c.modifyBuf i fun b => { b with refcnt := b.refcnt - 1 }).buf i).refcnt =
      (c.buf i).refcnt - 1 := by
    simp [modifyBuf_buf]
  have hfind : (c.bufs ids).find? (·.id == i) = some (c.buf i) := by
    have h := find?_id_of_nodup hw.nodup_bufs (List.mem_map_of_mem (f := c.buf) hi)
    rwa [hw.id_eq] at h
  unfold Bcache.brelse Xv6.brelse brelseIds
  rw [hfind]
  dsimp only
  rw [hb₁]
  by_cases h0 : (c.buf i).refcnt - 1 = 0
  · -- 0 になった：外して先頭につなぎ直す
    simp only [if_pos h0]
    refine ⟨hw₁.relink hi, ?_⟩
    rw [bufs, relink_buf, List.map_cons, ← bufs, hw.filter_ne]
    congr 1
    · simp [modifyBuf_buf]
    · refine List.map_congr_left fun j hj => ?_
      rw [modifyBuf_buf, if_neg ((hw.nodup.mem_erase_iff).mp hj).1]
  · -- まだ参照がある：欄だけが変わる
    simp only [if_neg h0]
    refine ⟨hw₁, ?_⟩
    rw [bufs_modifyBuf hw.id_eq]
    exact updBuf_congr fun x hx hxid => by rw [(hw.eq_of_mem hx).1, hxid]

/-- flag の書き換えも、列の上の同じ書き換えである。 -/
theorem Wf.modifyBuf_refines (hw : c.Wf ids) (hi : i ∈ ids) {f : Buf → Buf} (hf : ∀ b, (f b).id = b.id) :
    (c.modifyBuf i f).Wf ids ∧ (c.modifyBuf i f).bufs ids = updBuf (c.bufs ids) i f :=
  ⟨hw.modifyBuf hi hf, bufs_modifyBuf hw.id_eq ids i f⟩

end refines

/-! ## `binit` -/

section init

/-- `binit` の loop。つないだ順の逆が環の順になり、欄は変わらない。 -/
theorem ring_foldl_linkFront :
    ∀ (l : List Nat) {c : Bcache} {m : List Nat}, Ring c.next c.prev .head (m.map .buf) →
      (l ++ m).Nodup →
      let c' := l.foldl (fun c i => c.linkFront (.buf i)) c
      Ring c'.next c'.prev .head ((l.reverse ++ m).map .buf) ∧ c'.buf = c.buf := by
  intro l
  induction l with
  | nil => exact fun hr _ => ⟨hr, rfl⟩
  | cons i l ih =>
    intro c m hr hnd
    have hx : BufPtr.buf i ∉ .head :: m.map .buf := by
      have := (List.nodup_cons.mp hnd).1
      simp only [List.mem_cons, reduceCtorEq, List.mem_map, BufPtr.buf.injEq, exists_eq_right,
        false_or]
      exact fun h => this (List.mem_append_right _ h)
    have hr' : Ring (c.linkFront (.buf i)).next (c.linkFront (.buf i)).prev .head ((i :: m).map .buf) :=
      hr.linkFront hx
    have hnd' : (l ++ i :: m).Nodup := List.nodup_middle.mpr hnd
    obtain ⟨h₁, h₂⟩ := ih hr' hnd'
    refine ⟨?_, h₂⟩
    simpa using h₁

theorem binit_ring_buf :
    Ring binit.next binit.prev .head ((List.range NBUF).reverse.map .buf) ∧ binit.buf = Buf.zero := by
  have h₀ : Ring ((zero.setPrev .head .head).setNext .head .head).next
      ((zero.setPrev .head .head).setNext .head .head).prev .head (([] : List Nat).map .buf) :=
    ring_nil (by simp [setNext]) (by simp [setPrev, setNext])
  obtain ⟨hr, hb⟩ := ring_foldl_linkFront (List.range NBUF) h₀ (by simpa using List.nodup_range)
  exact ⟨by simpa [binit] using hr, hb⟩

theorem binit_wf : binit.Wf (List.range NBUF).reverse where
  ring := binit_ring_buf.1
  perm := List.reverse_perm _
  id_eq i := by rw [binit_ring_buf.2]; rfl
  outside i _ := by rw [binit_ring_buf.2]

end init

end Bcache

/-! ## 到達できる状態 -/

/--
`bcache` の一段：`bread` の中の `bget`、持っている buffer の `brelse`、持っている buffer の
`B_VALID`（読み終えた `iderw` と `loopdev_read`）と `B_DIRTY`（`log_write` と `bwrite`）。
root disk と loop device の `bread` は `dev` が違うだけで同じ段を踏み、loop device の `bread` の中の
入れ子の `bread` も同じ段の列である。どの process の段がどの順に来てもよい。
-/
inductive BcacheStep : Bcache → Bcache → Prop
  | bget {c c' : Bcache} {dev blockno i : Nat} : c.bget dev blockno = .ok (c', i) → BcacheStep c c'
  | brelse {c : Bcache} {i : Nat} : 0 < (c.buf i).refcnt → BcacheStep c (c.brelse i)
  | setValid {c : Bcache} {i : Nat} : 0 < (c.buf i).refcnt → BcacheStep c (c.setValid i)
  | setDirty {c : Bcache} {i : Nat} : 0 < (c.buf i).refcnt → BcacheStep c (c.setDirty i)

/-- `binit` の後に到達できる `bcache`。 -/
def BcacheReach : Bcache → Prop := Reach (· = Bcache.binit) BcacheStep

namespace Bcache

/-- 到達できる状態の不変条件：環の順 `ids` でたどった列で、生きた buffer はその block の最初の buffer である。 -/
structure Inv (c : Bcache) (ids : List Nat) : Prop extends c.Wf ids where
  first : CacheFirst (c.bufs ids)

namespace Inv

variable {c c' : Bcache} {ids : List Nat} {dev blockno i : Nat}

/-- 持たれている buffer は環の中にある。 -/
theorem held_mem (hv : c.Inv ids) (h : 0 < (c.buf i).refcnt) : i ∈ ids :=
  hv.toWf.mem_of_live (by simp [Buf.live, h])

theorem bget (hv : c.Inv ids) (h : c.bget dev blockno = .ok (c', i)) : c'.Inv ids := by
  obtain ⟨hw', hl⟩ := hv.toWf.bget h
  exact ⟨hw', hv.first.bget hv.toWf.nodup_bufs hl⟩

theorem brelse (hv : c.Inv ids) (h : 0 < (c.buf i).refcnt) : (c.brelse i).Inv (brelseIds c ids i) := by
  have hi := hv.held_mem h
  obtain ⟨hw', hl⟩ := hv.toWf.brelse hi
  refine ⟨hw', ?_⟩
  rw [hl]
  exact hv.first.brelse hv.toWf.nodup_bufs (List.mem_map_of_mem hi) (hv.id_eq i) h

/-- 持っている buffer の flag だけを書き換える段。block は変わらない。 -/
theorem modifyBuf (hv : c.Inv ids) (h : 0 < (c.buf i).refcnt) {f : Buf → Buf}
    (hf : ∀ b, (f b).id = b.id ∧ (f b).dev = b.dev ∧ (f b).blockno = b.blockno) :
    (c.modifyBuf i f).Inv ids := by
  obtain ⟨hw', hl⟩ := hv.toWf.modifyBuf_refines (hv.held_mem h) fun b => (hf b).1
  refine ⟨hw', ?_⟩
  rw [hl]
  refine hv.first.updBuf (fun x _ => (hf x).2) fun x hx hxid _ => ?_
  -- 書き換える buffer は持たれているので、もとから生きている
  have hxi : x = c.buf i := by rw [(hv.toWf.eq_of_mem hx).1, hxid]
  exact hv.first x hx (by rw [hxi]; simp [Buf.live, h])

theorem step (hv : ∃ ids, c.Inv ids) (hs : BcacheStep c c') : ∃ ids, c'.Inv ids := by
  obtain ⟨ids, hv⟩ := hv
  cases hs with
  | bget h => exact ⟨ids, hv.bget h⟩
  | brelse h => exact ⟨_, hv.brelse h⟩
  | setValid h => exact ⟨ids, hv.modifyBuf h fun _ => ⟨rfl, rfl, rfl⟩⟩
  | setDirty h => exact ⟨ids, hv.modifyBuf h fun _ => ⟨rfl, rfl, rfl⟩⟩

end Inv

/-- `binit` の後、生きた buffer はない。 -/
theorem inv_binit : binit.Inv (List.range NBUF).reverse := by
  refine ⟨binit_wf, fun b hb hl => ?_⟩
  obtain ⟨i, -, rfl⟩ := List.mem_map.mp hb
  rw [binit_ring_buf.2] at hl
  simp [Buf.live, Buf.zero] at hl

end Bcache

theorem BcacheReach.inv {c : Bcache} (hc : BcacheReach c) : ∃ ids, c.Inv ids :=
  Reach.rec_inv (fun c => ∃ ids, c.Inv ids) (fun _ h => h ▸ ⟨_, Bcache.inv_binit⟩)
    (fun _ _ hv hs => Bcache.Inv.step hv hs) hc

/--
**`bcache` の表現の不変条件。** `binit` の後、どの段がどの順に来ても：

* `head` から `next` でたどる環は `NBUF` 個の buffer をちょうど一度ずつ通り、各節点で
  `b->next->prev == b`、`b->prev->next == b` である。環の順 `ids` はただ一つに決まる
* 生きた（`refcnt > 0` か `B_VALID` の）二つの buffer は、root disk でも loop device でも同じ block を持たない
* `bget` は pointer を変えず、返す buffer のほかの欄も変えない。返す buffer は同じ block を持つものか、
  生きた buffer がその block を持たないときに、参照されておらず dirty でないものを付け替えたものである
* 持たれた buffer の `brelse` は `refcnt` を一つ減らし、0 になったときに限ってその buffer を先頭に移し、
  ほかの順を保つ
-/
theorem bcache_rep_invariant {c : Bcache} (hc : BcacheReach c) :
    ∃ ids : List Nat, ids.Perm (List.range NBUF) ∧
      Ring c.next c.prev .head (ids.map .buf) ∧
      (∀ b ∈ BufPtr.head :: ids.map .buf, c.prev (c.next b) = b ∧ c.next (c.prev b) = b) ∧
      (∀ ids' : List Nat, Ring c.next c.prev .head (ids'.map .buf) → ids' = ids) ∧
      (∀ i j, (c.buf i).live → (c.buf j).live → (c.buf i).dev = (c.buf j).dev →
        (c.buf i).blockno = (c.buf j).blockno → i = j) ∧
      (∀ dev blockno c' i, c.bget dev blockno = .ok (c', i) →
        c'.next = c.next ∧ c'.prev = c.prev ∧ (∀ j, j ≠ i → c'.buf j = c.buf j) ∧
        (((c.buf i).dev = dev ∧ (c.buf i).blockno = blockno ∧
            c'.buf i = { c.buf i with refcnt := (c.buf i).refcnt + 1 }) ∨
          ((∀ j, (c.buf j).live → ¬((c.buf j).dev = dev ∧ (c.buf j).blockno = blockno)) ∧
            (c.buf i).refcnt = 0 ∧ (c.buf i).dirty = false ∧
            c'.buf i =
              { c.buf i with dev := dev, blockno := blockno, valid := false, dirty := false, refcnt := 1 }))) ∧
      (∀ i, 0 < (c.buf i).refcnt →
        ((c.brelse i).buf i).refcnt = (c.buf i).refcnt - 1 ∧ (∀ j, j ≠ i → (c.brelse i).buf j = c.buf j) ∧
        Ring (c.brelse i).next (c.brelse i).prev .head
          ((if ((c.brelse i).buf i).refcnt = 0 then i :: ids.erase i else ids).map .buf)) := by
  obtain ⟨ids, hv⟩ := hc.inv
  refine ⟨ids, hv.perm, hv.ring, hv.ring.inverse, fun ids' hr => ?_, fun i j hi hj hdev hbn => ?_,
    fun dev blockno c' i h => hv.toWf.bget_fields h, fun i h => ⟨Bcache.brelse_refcnt c i, ?_, ?_⟩⟩
  · -- 環が通る列は一つで、`BufPtr.buf` は単射である
    exact List.map_injective_iff.mpr (fun _ _ e => BufPtr.buf.inj e) (hr.unique hv.ring)
  · -- 生きた二つは、どちらもその block を持つ最初の buffer である
    have he : c.buf i = c.buf j :=
      hv.first.unique (List.mem_map_of_mem (hv.toWf.mem_of_live hi))
        (List.mem_map_of_mem (hv.toWf.mem_of_live hj)) hi hj hdev hbn
    rw [← hv.id_eq i, he, hv.id_eq j]
  · intro j hj
    rw [Bcache.brelse_buf, if_neg hj]
  · rw [Bcache.brelse_refcnt]
    exact (hv.toWf.brelse (hv.held_mem h)).1.ring

set_option maxRecDepth 8000 in
/--
`binit` の後、block `(1, 100)` を `bget` して `B_VALID`・`B_DIRTY` を立てて `brelse` し、同じ block を
もう一度 `bget` で取り（環にあるので同じ buffer に当たる）、さらに block `(2, 5)` を `bget` した状態。
-/
theorem bcache_rep_invariant_after_bgets :
    ∃ c : Bcache, BcacheReach c ∧
    ∃ ids : List Nat, ids.Perm (List.range NBUF) ∧
      Ring c.next c.prev .head (ids.map .buf) ∧
      (∀ b ∈ BufPtr.head :: ids.map .buf, c.prev (c.next b) = b ∧ c.next (c.prev b) = b) ∧
      (∀ ids' : List Nat, Ring c.next c.prev .head (ids'.map .buf) → ids' = ids) ∧
      (∀ i j, (c.buf i).live → (c.buf j).live → (c.buf i).dev = (c.buf j).dev →
        (c.buf i).blockno = (c.buf j).blockno → i = j) ∧
      (∀ dev blockno c' i, c.bget dev blockno = .ok (c', i) →
        c'.next = c.next ∧ c'.prev = c.prev ∧ (∀ j, j ≠ i → c'.buf j = c.buf j) ∧
        (((c.buf i).dev = dev ∧ (c.buf i).blockno = blockno ∧
            c'.buf i = { c.buf i with refcnt := (c.buf i).refcnt + 1 }) ∨
          ((∀ j, (c.buf j).live → ¬((c.buf j).dev = dev ∧ (c.buf j).blockno = blockno)) ∧
            (c.buf i).refcnt = 0 ∧ (c.buf i).dirty = false ∧
            c'.buf i =
              { c.buf i with dev := dev, blockno := blockno, valid := false, dirty := false, refcnt := 1 }))) ∧
      (∀ i, 0 < (c.buf i).refcnt →
        ((c.brelse i).buf i).refcnt = (c.buf i).refcnt - 1 ∧ (∀ j, j ≠ i → (c.brelse i).buf j = c.buf j) ∧
        Ring (c.brelse i).next (c.brelse i).prev .head
          ((if ((c.brelse i).buf i).refcnt = 0 then i :: ids.erase i else ids).map .buf)) := by
  obtain ⟨c₁, c₅, c₆, i, j, k, h₁, hi, h₅, h₆⟩ : ∃ c₁ c₅ c₆ i j k,
      Bcache.binit.bget 1 100 = .ok (c₁, i) ∧ 0 < (c₁.buf i).refcnt ∧
      (((c₁.setValid i).setDirty i).brelse i).bget 1 100 = .ok (c₅, j) ∧ c₅.bget 2 5 = .ok (c₆, k) :=
    ⟨_, _, _, _, _, _, rfl, by decide, rfl, rfl⟩
  -- `B_VALID`・`B_DIRTY` を立てても `refcnt` は変わらない
  have r₁ : BcacheReach c₁ := .step (.init rfl) (.bget h₁)
  have r₂ : BcacheReach (c₁.setValid i) := .step r₁ (.setValid hi)
  have r₃ : BcacheReach ((c₁.setValid i).setDirty i) :=
    .step r₂ (.setDirty (by simpa [Bcache.setValid, Bcache.modifyBuf_buf] using hi))
  have r₄ : BcacheReach (((c₁.setValid i).setDirty i).brelse i) :=
    .step r₃ (.brelse (by simpa [Bcache.setValid, Bcache.setDirty, Bcache.modifyBuf_buf] using hi))
  have r₆ : BcacheReach c₆ := .step (.step r₄ (.bget h₅)) (.bget h₆)
  exact ⟨c₆, r₆, bcache_rep_invariant r₆⟩

end Xv6

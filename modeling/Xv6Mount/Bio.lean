import Xv6Mount.Log.Calls

/-!
# buffer cache（`bio.c`）

`bcache.head` から `next` でたどる円環リストを、MRU 側から LRU 側への列で表す。
buffer は `bcache.buf[id]` の `id` で指す。`flags` は `B_VALID` と `B_DIRTY` の二つの bit
しか使われないので、二つの `Bool` にする。

## `bget` が panic するとき

`bget` はまず MRU 側から同じ (dev, blockno) の buffer を探し、なければ LRU 側から
`refcnt == 0` かつ `B_DIRTY` の立っていない buffer を探す。どちらもなければ
"bget: no buffers" で panic する（`bget_panic_iff`）。

`log_write` した block は commit まで `B_DIRTY` で pin される。`NBUF = LOGSIZE` は
一つの log のために決めた大きさだが、今は root log と loop_log が別々に pin する。

## loop device の読み込み

loop device の block を `bread` して cache になければ `loopdev_read` が走り、
その buffer を握ったまま backing file を `readi` する。`readi` は root disk の block を
`bread`・`brelse` する。その block は backing file の `bmap` で決まるので、
引数 `imgRead` として受ける（`imgRead b` は loop device の block `b` を読むとき
順に `bread` する root disk の block）。
-/

namespace Xv6

open Infra

/-- `struct buf` のうち、cache の管理に使う欄。 -/
structure Buf where
  id : Nat
  dev : Nat
  blockno : Nat
  valid : Bool
  dirty : Bool
  refcnt : Nat
deriving DecidableEq, Repr

/-- `binit` の後の列。`bcache.buf[i]` を順に head に入れるので、MRU 側から `NBUF-1, …, 0` である。 -/
def binit : List Buf :=
  (List.range NBUF).reverse.map fun i =>
    { id := i, dev := 0, blockno := 0, valid := false, dirty := false, refcnt := 0 }

/-- buffer `id` を `f` で書き換える。 -/
def updBuf (bufs : List Buf) (id : Nat) (f : Buf → Buf) : List Buf :=
  bufs.map fun x => if x.id = id then f x else x

/-- `bget` の一つ目の探索：同じ block を持つ buffer。 -/
def cachedBuf (bufs : List Buf) (dev blockno : Nat) : Option Buf :=
  bufs.find? fun b => b.dev == dev && b.blockno == blockno

/-- `bget` の二つ目の探索：LRU 側から、参照されておらず dirty でない buffer。 -/
def recyclableBuf (bufs : List Buf) : Option Buf :=
  bufs.reverse.find? fun b => b.refcnt == 0 && !b.dirty

/-- `bget`。見つけた buffer の `id` を返す。 -/
def bget (bufs : List Buf) (dev blockno : Nat) : Except Stop (List Buf × Nat) :=
  match cachedBuf bufs dev blockno with
  | some b => .ok (updBuf bufs b.id fun x => { x with refcnt := x.refcnt + 1 }, b.id)
  | none =>
    match recyclableBuf bufs with
    | some b =>
      .ok (updBuf bufs b.id fun x =>
        { x with dev := dev, blockno := blockno, valid := false, dirty := false, refcnt := 1 }, b.id)
    | none => .error (.panic "bget: no buffers")

/-- `brelse`。`refcnt` を減らし、0 になれば列の先頭（MRU）に移す。 -/
def brelse (bufs : List Buf) (id : Nat) : List Buf :=
  match bufs.find? (·.id == id) with
  | none => bufs
  | some b =>
    let b' := { b with refcnt := b.refcnt - 1 }
    if b'.refcnt = 0 then b' :: bufs.filter (·.id != id) else updBuf bufs id fun _ => b'

/-- buffer `id` の `B_VALID` を立て `B_DIRTY` を下ろす（`iderw` と `loopdev_read` の終わり）。 -/
def setValid (bufs : List Buf) (id : Nat) : List Buf :=
  updBuf bufs id fun x => { x with valid := true, dirty := false }

/-- root disk の `bread`。cache になければ `iderw` で読む。 -/
def breadDisk (bufs : List Buf) (dev blockno : Nat) : Except Stop (List Buf × Nat) := do
  let (bufs, id) ← bget bufs dev blockno
  if (bufs.find? (·.id == id)).any (·.valid) then .ok (bufs, id) else .ok (setValid bufs id, id)

/-- `loopdev_read` が backing file から読むときの root disk の `bread`・`brelse`。 -/
def readImage (bufs : List Buf) (rootBlocks : List Nat) : Except Stop (List Buf) :=
  runList (fun bufs r => (breadDisk bufs ROOTDEV r).map fun p => brelse p.1 p.2) bufs rootBlocks

/--
`bread`。cache になければ device から読む。loop device なら `loopdev_read` が
この buffer を握ったまま root disk の block を読む。
-/
def bread (imgRead : Nat → List Nat) (bufs : List Buf) (dev blockno : Nat) :
    Except Stop (List Buf × Nat) := do
  let (bufs, id) ← bget bufs dev blockno
  if (bufs.find? (·.id == id)).any (·.valid) then .ok (bufs, id)
  else if isloopdev dev then
    let bufs ← readImage bufs (imgRead blockno)
    .ok (setValid bufs id, id)
  else .ok (setValid bufs id, id)

/-! ## 読み込みの段の分解 -/

theorem breadDisk_of_bget_error {bufs : List Buf} {dev blockno : Nat} {e : Stop}
    (h : bget bufs dev blockno = .error e) : breadDisk bufs dev blockno = .error e := by
  simp [breadDisk, h, bind, Except.bind]

theorem readImage_cons_error {bufs : List Buf} {r : Nat} {e : Stop} (rs : List Nat)
    (h : breadDisk bufs ROOTDEV r = .error e) : readImage bufs (r :: rs) = .error e := by
  simp [readImage, runList, h, Except.map]

/-- loop device の block が cache になければ、`bread` は `loopdev_read` の読み込みの結果で止まる。 -/
theorem bread_loop_error {imgRead : Nat → List Nat} {bufs bufs₁ : List Buf} {dev blockno id : Nat}
    {e : Stop} (hget : bget bufs dev blockno = .ok (bufs₁, id))
    (hvalid : (bufs₁.find? (·.id == id)).any (·.valid) = false) (hloop : isloopdev dev = true)
    (hread : readImage bufs₁ (imgRead blockno) = .error e) :
    bread imgRead bufs dev blockno = .error e := by
  simp [bread, hget, hvalid, hloop, hread, bind, Except.bind]

/-! ## `bget` の panic -/

/-- **`bget` が panic するのは、block が cache になく、どの buffer も参照されているか dirty のときである。** -/
theorem bget_panic_iff (bufs : List Buf) (dev blockno : Nat) :
    bget bufs dev blockno = .error (.panic "bget: no buffers") ↔
      (∀ b ∈ bufs, ¬(b.dev = dev ∧ b.blockno = blockno)) ∧ ∀ b ∈ bufs, b.refcnt ≠ 0 ∨ b.dirty = true := by
  unfold bget
  cases hc : cachedBuf bufs dev blockno with
  | some b =>
    have hb := List.find?_some hc
    have hbm := List.mem_of_find?_eq_some hc
    simp only [Bool.and_eq_true, beq_iff_eq] at hb
    simp only [reduceCtorEq, false_iff, not_and, not_forall]
    intro h
    exact absurd hb.2 (h b hbm hb.1)
  | none =>
    have hnc : ∀ b ∈ bufs, ¬(b.dev = dev ∧ b.blockno = blockno) := by
      intro b hb ⟨h1, h2⟩
      have := List.find?_eq_none.mp hc b hb
      simp [h1, h2] at this
    cases hr : recyclableBuf bufs with
    | some b =>
      have hb := List.find?_some hr
      have hbm : b ∈ bufs := List.mem_reverse.mp (List.mem_of_find?_eq_some hr)
      simp only [Bool.and_eq_true, beq_iff_eq, Bool.not_eq_true'] at hb
      simp only [reduceCtorEq, false_iff, not_and, not_forall]
      intro _
      exact ⟨b, hbm, by simp [hb.1, hb.2]⟩
    | none =>
      simp only [true_iff]
      refine ⟨hnc, fun b hb => ?_⟩
      have := List.find?_eq_none.mp hr b (List.mem_reverse.mpr hb)
      simp only [Bool.and_eq_true, beq_iff_eq, Bool.not_eq_true', not_and] at this
      by_cases h0 : b.refcnt = 0
      · right; simpa using this h0
      · left; exact h0

/-! ## FS 操作から見た buffer cache -/

/-- buffer cache と log 層をあわせた状態。 -/
structure BioSys where
  bufs : List Buf
  log : LogSys

/-- `log_write` の buffer 側。header に記録し、`B_DIRTY` を立てて pin する。 -/
def logWriteBuf (s : BioSys) (id : Nat) : Except Stop BioSys :=
  match s.bufs.find? (·.id == id) with
  | none => .ok s
  | some b => (logWrite s.log b.dev b.blockno).map fun l =>
      { bufs := updBuf s.bufs id fun x => { x with dirty := true }, log := l }

/--
buffer cache から見た FS 操作の呼び出し。

* `readBlock` — `bread` して `brelse` する（読むだけの block）
* `writeBlock` — `bread` して中身を書き換え、`log_write` して `brelse` する
  （`bzero`・`iupdate`・`writei` などの形）
-/
inductive BioCall where
  | beginOp
  | readBlock (dev blockno : Nat)
  | writeBlock (dev blockno : Nat)
deriving DecidableEq, Repr

/-- 呼び出し一回。 -/
def bioCall (imgRead : Nat → List Nat) (s : BioSys) : BioCall → Except Stop BioSys
  | .beginOp => (beginOp s.log).map fun l => { s with log := l }
  | .readBlock dev blockno =>
    (bread imgRead s.bufs dev blockno).map fun p => { s with bufs := brelse p.1 p.2 }
  | .writeBlock dev blockno => do
    let (bufs, id) ← bread imgRead s.bufs dev blockno
    let s ← logWriteBuf { s with bufs := bufs } id
    .ok { s with bufs := brelse s.bufs id }

/--
loop image を mount した直後の状態。`sys_mount` の操作は `is_loop_mounted = 1` とし、
空の commit で終わる。mount の path 探索が読んだ block は clean で `refcnt` 0 なので、
`bget` にとっては空の buffer と同じである。ここでは空の cache から始める。
-/
def bioMounted : BioSys where
  bufs := binit
  log := { mkfsLog with is_loop_mounted := true }

/-- 三つの操作が root disk の 29 block を書いたところまで。各操作は 10・10・9 block を書く。 -/
def pinCalls : List BioCall :=
  [.beginOp, .beginOp, .beginOp] ++ (List.range 29).map fun i => .writeBlock ROOTDEV (100 + i)

/-- 29 block が pin された状態。 -/
def pinnedState : BioSys :=
  ((runList (bioCall fun _ => []) bioMounted pinCalls).toOption).getD bioMounted

theorem runList_pinCalls (imgRead : Nat → List Nat) :
    runList (bioCall imgRead) bioMounted pinCalls = .ok pinnedState := by
  rfl


/-- loop device の block 5 を `bget` した後の buffer の列と、その buffer の `id`。 -/
def loopHeld : List Buf × Nat :=
  ((bget pinnedState.bufs LOOPDEV_MASK 5).toOption).getD ([], 0)

theorem bget_loopHeld : bget pinnedState.bufs LOOPDEV_MASK 5 = .ok loopHeld := by
  rfl

/--
**二つの log が pin した buffer で、loop device の読み込みが `bget` を使い切る。**

三つ目の操作が loop device 0（番号 `0 | LOOPDEV_MASK`）の block 5 を読む。残った一つの
buffer が loop device の buffer になり、`loopdev_read` がそれを握ったまま backing file の
block `r` を `bread` すると、`r` に回せる buffer はもうない。`r` は操作が書いた block
100〜128 のどれでもないとする。三つの操作はどれも 10 block 以下しか触らず、root log も
loop_log も `begin_op` の予約の中にある。
-/
theorem bget_exhausted_by_loop_read (imgRead : Nat → List Nat) (r : Nat) (rs : List Nat)
    (himg : imgRead 5 = r :: rs) (hr : r < 100 ∨ 129 ≤ r) :
    runList (bioCall imgRead) bioMounted (pinCalls ++ [.readBlock LOOPDEV_MASK 5]) =
      .error (.panic "bget: no buffers") := by
  -- loop device の buffer を取った後、どの buffer も参照されているか dirty である
  have hfull : ∀ b ∈ loopHeld.1, b.refcnt ≠ 0 ∨ b.dirty = true := by decide
  have hkeys : ∀ b ∈ loopHeld.1, b.dev = ROOTDEV → 100 ≤ b.blockno ∧ b.blockno < 129 := by
    decide
  have hpanic : bget loopHeld.1 ROOTDEV r = .error (.panic "bget: no buffers") := by
    refine (bget_panic_iff _ _ _).mpr ⟨fun b hb ⟨hd, hbn⟩ => ?_, hfull⟩
    have := hkeys b hb hd
    omega
  have hread : readImage loopHeld.1 (imgRead 5) = .error (.panic "bget: no buffers") := by
    rw [himg]
    exact readImage_cons_error rs (breadDisk_of_bget_error hpanic)
  have hbread : bread imgRead pinnedState.bufs LOOPDEV_MASK 5 = .error (.panic "bget: no buffers") :=
    bread_loop_error bget_loopHeld (by decide) (by decide) hread
  rw [runList_append, runList_pinCalls]
  simp [runList, bioCall, hbread, Except.bind, Except.map]

/-- image の block `b` が root disk の block `900 + b` にある場合。 -/
theorem bget_exhausted_at_block_905 :
    ((fun b : Nat => [900 + b]) 5 = 905 :: [] ∧ (905 < 100 ∨ 129 ≤ 905)) ∧
    runList (bioCall fun b => [900 + b]) bioMounted (pinCalls ++ [.readBlock LOOPDEV_MASK 5]) =
      .error (.panic "bget: no buffers") :=
  ⟨⟨rfl, by decide⟩, bget_exhausted_by_loop_read _ 905 [] rfl (by decide)⟩

end Xv6

import Xv6Mount.Bio.Cache
import Xv6Mount.Log.Absorb

/-!
# `log_write` の header と pin（FS 操作の列）

buffer cache から見た FS 操作の列（`bioCall`）を回す。`writeBlock` は `bread` した buffer の
(dev, blockno) を `log_write` し、その buffer に `B_DIRTY` を立てる。commit まで、

* 各 log の header は、その log に書いた block を最初に書いた順に一度ずつ持ち
  （`runList_bioCall_lh`）、
* header の各 block は、その log の device の `B_DIRTY` の buffer にある（`Pinned`）。

`B_DIRTY` の buffer は `bget` が付け替えず（`recyclableBuf_spec`）、`setValid` は valid でない
buffer にしか来ないので、dirty な buffer は block を持ったまま残る（`DirtyKept`）。
-/

namespace Xv6

open Infra

/-- 呼び出しが `log_write` する (device, block)。 -/
def BioCall.written : BioCall → List (Nat × Nat)
  | .writeBlock dev blockno => [(dev, blockno)]
  | _ => []

/-- 呼び出しの列が `log_write` した (device, block) の列。 -/
def bioWrites (calls : List BioCall) : List (Nat × Nat) := calls.flatMap BioCall.written

@[simp] theorem bioWrites_nil : bioWrites [] = [] := rfl

theorem bioWrites_cons (c : BioCall) (calls : List BioCall) :
    bioWrites (c :: calls) = c.written ++ bioWrites calls := List.flatMap_cons

/-! ## pin -/

/-- header の block `b` が、log `loop` の device の `B_DIRTY` の buffer にある。 -/
def PinnedIn (bufs : List Buf) (loop : Bool) (b : Nat) : Prop :=
  ∃ x ∈ bufs, isloopdev x.dev = loop ∧ x.blockno = b ∧ x.dirty = true

theorem PinnedIn.of_dirtyKept {bufs bufs' : List Buf} {loop : Bool} {b : Nat}
    (h : PinnedIn bufs loop b) (hk : DirtyKept bufs bufs') : PinnedIn bufs' loop b := by
  obtain ⟨x, hx, hl, hb, hd⟩ := h
  obtain ⟨y, hy, hdev, hbn, hyd⟩ := hk x hx hd
  exact ⟨y, hy, hdev ▸ hl, hbn ▸ hb, hyd⟩

/--
FS 操作の列の不変条件。buffer の列は整合していて、各 log の header は重複せず、
その各 block は、その log の device の `B_DIRTY` の buffer にある。
-/
structure Pinned (s : BioSys) : Prop where
  wf : BufsWf s.bufs
  nodup : ∀ loop, (s.log.logFor loop).lh.Nodup
  pinned : ∀ loop, ∀ b ∈ (s.log.logFor loop).lh, PinnedIn s.bufs loop b

/-- header を変えず、dirty な buffer を残す段は、不変条件を保つ。 -/
theorem Pinned.of_dirtyKept {s s' : BioSys} (hs : Pinned s) (hw : BufsWf s'.bufs)
    (hk : DirtyKept s.bufs s'.bufs) (hlh : ∀ loop, (s'.log.logFor loop).lh = (s.log.logFor loop).lh) :
    Pinned s' where
  wf := hw
  nodup loop := hlh loop ▸ hs.nodup loop
  pinned loop b hb := (hs.pinned loop b (hlh loop ▸ hb)).of_dirtyKept hk

/-! ## `log_write` の buffer 側 -/

/--
握った valid な buffer を `log_write` する。header は `log_write` のとおりに変わり、
その buffer は dirty になって、書いた block の pin になる。
-/
theorem logWriteBuf_spec {s s' : BioSys} {id dev blockno : Nat} (hw : BufsWf s.bufs)
    (hh : Holds s.bufs id dev blockno) (h : logWriteBuf s id = .ok s') :
    logWrite s.log dev blockno = .ok s'.log ∧ BufsWf s'.bufs ∧ DirtyKept s.bufs s'.bufs ∧
    PinnedIn s'.bufs (isloopdev dev) blockno := by
  obtain ⟨b, hb, rfl, rfl, rfl, hv, -⟩ := hh
  unfold logWriteBuf at h
  rw [hw.find?_id hb] at h
  obtain ⟨l, hl, rfl⟩ := map_eq_ok.mp h
  refine ⟨hl, hw.updBuf (fun _ _ => rfl) fun y hy he _ => ?_, dirtyKept_updBuf fun _ _ _ _ => ⟨rfl, rfl, rfl⟩,
    ⟨_, mem_updBuf_self hb rfl, rfl, rfl, rfl⟩⟩
  -- dirty にする buffer は valid である
  rw [hw.eq_of_id hy hb he]
  exact hv

/-! ## 一回の呼び出し -/

/-- 成功した `log_write` の後の header の要素。書いた block か、前からあった block である。 -/
theorem mem_logWrite_lh {l l' : LogSys} {dev blockno : Nat} (h : logWrite l dev blockno = .ok l')
    {loop : Bool} {b : Nat} (hb : b ∈ (l'.logFor loop).lh) :
    b ∈ (l.logFor loop).lh ∨ (isloopdev dev = loop ∧ b = blockno) := by
  rw [(logWrite_eq_ok h).2.2 loop] at hb
  split at hb
  · rename_i hd
    rcases mem_absorb.mp hb with hb | rfl
    · exact .inl hb
    · exact .inr ⟨hd, rfl⟩
  · exact .inl hb

theorem nodup_logWrite_lh {l l' : LogSys} {dev blockno : Nat} (h : logWrite l dev blockno = .ok l')
    {loop : Bool} (hnd : (l.logFor loop).lh.Nodup) : (l'.logFor loop).lh.Nodup := by
  rw [(logWrite_eq_ok h).2.2 loop]
  split
  · exact absorb_nodup hnd blockno
  · exact hnd

/--
**一回の FS 操作の呼び出し。** 不変条件を保ち、各 log の header は、その呼び出しが
`log_write` した block のうちその log に入るものを吸収する。
-/
theorem bioCall_spec {imgRead : Nat → List Nat} {s s' : BioSys} {c : BioCall} (hs : Pinned s)
    (h : bioCall imgRead s c = .ok s') :
    Pinned s' ∧ ∀ loop, (s'.log.logFor loop).lh =
      (writesTo loop c.written).foldl insertLast (s.log.logFor loop).lh := by
  cases c with
  | beginOp =>
    obtain ⟨l, hl, rfl⟩ := map_eq_ok.mp h
    exact ⟨hs.of_dirtyKept hs.wf (.refl _) (beginOp_lh hl), beginOp_lh hl⟩
  | readBlock dev blockno =>
    obtain ⟨⟨bufs₁, id⟩, hr, rfl⟩ := map_eq_ok.mp h
    obtain ⟨hw₁, hk₁, -⟩ := bread_spec hs.wf hr
    exact ⟨hs.of_dirtyKept hw₁.brelse (hk₁.trans (dirtyKept_brelse hw₁)) fun _ => rfl, fun _ => rfl⟩
  | writeBlock dev blockno =>
    obtain ⟨⟨bufs₁, id⟩, hr, h⟩ := bind_eq_ok.mp h
    obtain ⟨s₂, hlw, h⟩ := bind_eq_ok.mp h
    cases h
    obtain ⟨hw₁, hk₁, hh₁⟩ := bread_spec hs.wf hr
    obtain ⟨hl, hw₂, hk₂, hpin⟩ := logWriteBuf_spec (s := { s with bufs := bufs₁ }) hw₁ hh₁ hlw
    -- buffer を放しても dirty な buffer は残る
    have hk : DirtyKept s₂.bufs (brelse s₂.bufs id) := dirtyKept_brelse hw₂
    refine ⟨⟨hw₂.brelse, fun loop => nodup_logWrite_lh hl (hs.nodup loop), fun loop b hb => ?_⟩,
      fun loop => logWrite_lh hl loop⟩
    rcases mem_logWrite_lh hl hb with hb | ⟨rfl, rfl⟩
    · exact ((hs.pinned loop b hb).of_dirtyKept (hk₁.trans hk₂)).of_dirtyKept hk
    · exact hpin.of_dirtyKept hk

/-! ## 呼び出しの列 -/

/-- **FS 操作の列の後の header と pin。** -/
theorem runList_bioCall_lh {imgRead : Nat → List Nat} {s s' : BioSys} (calls : List BioCall)
    (hs : Pinned s) (h : runList (bioCall imgRead) s calls = .ok s') :
    Pinned s' ∧ ∀ loop, (s'.log.logFor loop).lh =
      (writesTo loop (bioWrites calls)).foldl insertLast (s.log.logFor loop).lh := by
  induction calls generalizing s with
  | nil => cases h; exact ⟨hs, fun _ => rfl⟩
  | cons c calls ih =>
    cases hc : bioCall imgRead s c with
    | error e => rw [runList_cons_error hc] at h; cases h
    | ok s₁ =>
      rw [runList_cons_ok hc] at h
      obtain ⟨hs₁, hlh₁⟩ := bioCall_spec hs hc
      obtain ⟨hs', hlh'⟩ := ih hs₁ h
      refine ⟨hs', fun loop => ?_⟩
      rw [hlh', hlh₁, bioWrites_cons, writesTo_append, List.foldl_append]

/-- mount した直後の状態は不変条件を満たす。header はどちらも空である。 -/
theorem pinned_bioMounted : Pinned bioMounted where
  wf := ⟨by decide, by decide⟩
  nodup loop := by cases loop <;> exact List.nodup_nil
  pinned loop b hb := by cases loop <;> simp [bioMounted, mkfsLog, initlog] at hb

/--
**log absorption。** commit の間の FS 操作の列の後、各 log の header は、初めの header に、
その log に入った block（device が loop device かどうかで決まる）のうち新しいものを、最初に
書いた順に一度ずつ足したものである。header が空から始まれば、書いた異なる block をちょうど
一度ずつ最初に書いた順に持ち、長さはその数である。header の各 block は、その log の device の
`B_DIRTY` の buffer にある。
-/
theorem log_absorption_pins (imgRead : Nat → List Nat) {s s' : BioSys} (calls : List BioCall)
    (hs : Pinned s) (h : runList (bioCall imgRead) s calls = .ok s') (loop : Bool) :
    (s'.log.logFor loop).lh = (s.log.logFor loop).lh ++
      (firstOcc (writesTo loop (bioWrites calls))).filter (· ∉ (s.log.logFor loop).lh) ∧
    (s'.log.logFor loop).lh.Nodup ∧
    ((s.log.logFor loop).lh = [] →
      (s'.log.logFor loop).lh = firstOcc (writesTo loop (bioWrites calls)) ∧
      (s'.log.logFor loop).lh.length = (writesTo loop (bioWrites calls)).toFinset.card) ∧
    ∀ b ∈ (s'.log.logFor loop).lh, ∃ x ∈ s'.bufs, isloopdev x.dev = loop ∧ x.blockno = b ∧ x.dirty = true := by
  obtain ⟨hs', hlh⟩ := runList_bioCall_lh calls hs h
  have heq := hlh loop
  rw [foldl_insertLast] at heq
  refine ⟨heq, hs'.nodup loop, fun h0 => ?_, hs'.pinned loop⟩
  rw [heq, h0, List.nil_append, List.filter_eq_self.mpr (fun _ _ => by simp)]
  exact ⟨rfl, length_firstOcc _⟩

/-- mount した直後から、三つの操作が root disk の 29 block を書いたところまで。 -/
theorem log_absorption_pins_pinCalls :
    Pinned bioMounted ∧
    ((pinnedState.log.logFor false).lh = (bioMounted.log.logFor false).lh ++
      (firstOcc (writesTo false (bioWrites pinCalls))).filter (· ∉ (bioMounted.log.logFor false).lh) ∧
    (pinnedState.log.logFor false).lh.Nodup ∧
    ((bioMounted.log.logFor false).lh = [] →
      (pinnedState.log.logFor false).lh = firstOcc (writesTo false (bioWrites pinCalls)) ∧
      (pinnedState.log.logFor false).lh.length = (writesTo false (bioWrites pinCalls)).toFinset.card) ∧
    ∀ b ∈ (pinnedState.log.logFor false).lh, ∃ x ∈ pinnedState.bufs,
      isloopdev x.dev = false ∧ x.blockno = b ∧ x.dirty = true) :=
  ⟨pinned_bioMounted, log_absorption_pins (fun _ => []) pinCalls pinned_bioMounted (runList_pinCalls _) false⟩

end Xv6

import Xv6Mount.Bio

/-!
# buffer の列の整合性

`Xv6Mount/Bio.lean` の buffer の列について、呼び出しの各段が保つことを言う。

* `BufsWf` — `id` は重複せず、`B_DIRTY` の buffer は `B_VALID` である
* `DirtyKept` — `B_DIRTY` の buffer は同じ block を持ったまま `B_DIRTY` で残る
* `bget_cases` — `bget` は、見つけた buffer の `refcnt` を増やすか、参照されておらず dirty でない
  buffer を付け替えるか、のどちらかである
* `mem_brelse` — `id` が重複しなければ、`brelse` の結果は、その buffer の `refcnt` を減らした列と
  同じ要素を持つ（MRU への移動は並びしか変えない）
* `bread_spec` — `bread` は整合性と dirty な buffer を保ち、求めた block を持つ `B_VALID` の
  buffer を握って返す

## 一つの buffer を握ったままの読み込み

loop device の `bread` は、その buffer を握ったまま root disk の block を読む。読み込みが触るのは
root disk の block を持つ buffer か、参照されていない buffer だけなので、握った buffer は
そのまま残る（`breadDisk_keeps`・`readImage_spec`）。
-/

namespace Xv6

open Infra

/-! ## `updBuf` -/

section updBuf

variable {bufs : List Buf} {id : Nat} {f : Buf → Buf} {x : Buf}

theorem mem_updBuf : x ∈ updBuf bufs id f ↔ ∃ y ∈ bufs, (if y.id = id then f y else y) = x :=
  List.mem_map

theorem mem_updBuf_of_ne (hx : x ∈ bufs) (hne : x.id ≠ id) : x ∈ updBuf bufs id f :=
  mem_updBuf.mpr ⟨x, hx, if_neg hne⟩

theorem mem_updBuf_self (hx : x ∈ bufs) (he : x.id = id) : f x ∈ updBuf bufs id f :=
  mem_updBuf.mpr ⟨x, hx, if_pos he⟩

theorem map_id_updBuf (hf : ∀ y, y.id = id → (f y).id = y.id) :
    (updBuf bufs id f).map Buf.id = bufs.map Buf.id := by
  unfold updBuf
  rw [List.map_map]
  apply List.map_congr_left
  intro y _
  simp only [Function.comp_apply]
  split
  · exact hf y ‹_›
  · rfl

end updBuf

/-! ## 整合性 -/

section nodup

variable {bufs : List Buf} {x y : Buf}

theorem eq_of_id_of_nodup (hnd : (bufs.map Buf.id).Nodup) (hx : x ∈ bufs) (hy : y ∈ bufs)
    (he : x.id = y.id) : x = y :=
  List.inj_on_of_nodup_map hnd hx hy he

/-- `id` が重複しなければ、`id` で引くとその buffer が見つかる。 -/
theorem find?_id_of_nodup (hnd : (bufs.map Buf.id).Nodup) (hx : x ∈ bufs) :
    bufs.find? (·.id == x.id) = some x := by
  cases hf : bufs.find? (·.id == x.id) with
  | none =>
    have := List.find?_eq_none.mp hf x hx
    simp at this
  | some z =>
    have hz := List.mem_of_find?_eq_some hf
    have hid : z.id = x.id := by simpa using List.find?_some hf
    rw [eq_of_id_of_nodup hnd hz hx hid]

end nodup

/-- buffer の列の整合性。`id` は重複せず、`B_DIRTY` の buffer は `B_VALID` である。 -/
structure BufsWf (bufs : List Buf) : Prop where
  nodup : (bufs.map Buf.id).Nodup
  valid_of_dirty : ∀ x ∈ bufs, x.dirty = true → x.valid = true

namespace BufsWf

variable {bufs : List Buf} {x y : Buf}

theorem eq_of_id (hw : BufsWf bufs) (hx : x ∈ bufs) (hy : y ∈ bufs) (he : x.id = y.id) : x = y :=
  eq_of_id_of_nodup hw.nodup hx hy he

/-- `id` で引くと、その buffer が見つかる。 -/
theorem find?_id (hw : BufsWf bufs) (hx : x ∈ bufs) : bufs.find? (·.id == x.id) = some x :=
  find?_id_of_nodup hw.nodup hx

/-- `f` が `id` を変えず、書き換えた buffer が dirty なら valid であれば、`updBuf` は整合性を保つ。 -/
theorem updBuf (hw : BufsWf bufs) {id : Nat} {f : Buf → Buf} (hf : ∀ y, y.id = id → (f y).id = y.id)
    (hd : ∀ y ∈ bufs, y.id = id → (f y).dirty = true → (f y).valid = true) :
    BufsWf (updBuf bufs id f) := by
  refine ⟨by rw [map_id_updBuf hf]; exact hw.nodup, fun z hz hdz => ?_⟩
  obtain ⟨y, hy, rfl⟩ := mem_updBuf.mp hz
  split at hdz
  · rename_i he
    simpa [he] using hd y hy he hdz
  · simpa [*] using hw.valid_of_dirty y hy hdz

end BufsWf

/-! ## dirty な buffer は残る -/

/-- `B_DIRTY` の buffer は、同じ block を持ったまま `B_DIRTY` で残る。 -/
def DirtyKept (bufs bufs' : List Buf) : Prop :=
  ∀ x ∈ bufs, x.dirty = true → ∃ y ∈ bufs', y.dev = x.dev ∧ y.blockno = x.blockno ∧ y.dirty = true

theorem DirtyKept.refl (bufs : List Buf) : DirtyKept bufs bufs :=
  fun x hx hd => ⟨x, hx, rfl, rfl, hd⟩

theorem DirtyKept.trans {bufs₁ bufs₂ bufs₃ : List Buf} (h₁ : DirtyKept bufs₁ bufs₂)
    (h₂ : DirtyKept bufs₂ bufs₃) : DirtyKept bufs₁ bufs₃ := by
  intro x hx hd
  obtain ⟨y, hy, hdev, hbn, hyd⟩ := h₁ x hx hd
  obtain ⟨z, hz, hdev', hbn', hzd⟩ := h₂ y hy hyd
  exact ⟨z, hz, hdev'.trans hdev, hbn'.trans hbn, hzd⟩

/-- dirty な buffer の block と dirty を保つ書き換えは、dirty な buffer を残す。 -/
theorem dirtyKept_updBuf {bufs : List Buf} {id : Nat} {f : Buf → Buf}
    (hf : ∀ y ∈ bufs, y.id = id → y.dirty = true →
      (f y).dev = y.dev ∧ (f y).blockno = y.blockno ∧ (f y).dirty = true) :
    DirtyKept bufs (updBuf bufs id f) := by
  intro x hx hd
  by_cases he : x.id = id
  · obtain ⟨h₁, h₂, h₃⟩ := hf x hx he hd
    exact ⟨f x, mem_updBuf_self hx he, h₁, h₂, h₃⟩
  · exact ⟨x, mem_updBuf_of_ne hx he, rfl, rfl, hd⟩

/-! ## `bget` -/

theorem cachedBuf_spec {bufs : List Buf} {dev blockno : Nat} {b : Buf}
    (h : cachedBuf bufs dev blockno = some b) : b ∈ bufs ∧ b.dev = dev ∧ b.blockno = blockno := by
  have hb := List.find?_some h
  simp only [Bool.and_eq_true, beq_iff_eq] at hb
  exact ⟨List.mem_of_find?_eq_some h, hb⟩

theorem cachedBuf_eq_none {bufs : List Buf} {dev blockno : Nat}
    (h : cachedBuf bufs dev blockno = none) : ∀ x ∈ bufs, ¬(x.dev = dev ∧ x.blockno = blockno) := by
  intro x hx ⟨h₁, h₂⟩
  have := List.find?_eq_none.mp h x hx
  simp [h₁, h₂] at this

/-- **`bget` は参照されている buffer も dirty な buffer も付け替えない。** -/
theorem recyclableBuf_spec {bufs : List Buf} {b : Buf} (h : recyclableBuf bufs = some b) :
    b ∈ bufs ∧ b.refcnt = 0 ∧ b.dirty = false := by
  have hb := List.find?_some h
  simp only [Bool.and_eq_true, beq_iff_eq, Bool.not_eq_true'] at hb
  exact ⟨List.mem_reverse.mp (List.mem_of_find?_eq_some h), hb⟩

/-- `bget` の結果。見つけた buffer の `refcnt` を増やすか、付け替えるか、である。 -/
theorem bget_cases {bufs bufs' : List Buf} {dev blockno id : Nat}
    (h : bget bufs dev blockno = .ok (bufs', id)) :
    (∃ b, cachedBuf bufs dev blockno = some b ∧ id = b.id ∧
        bufs' = updBuf bufs b.id fun x => { x with refcnt := x.refcnt + 1 }) ∨
    (cachedBuf bufs dev blockno = none ∧ ∃ b, recyclableBuf bufs = some b ∧ id = b.id ∧
        bufs' = updBuf bufs b.id fun x =>
          { x with dev := dev, blockno := blockno, valid := false, dirty := false, refcnt := 1 }) := by
  unfold bget at h
  split at h
  · rename_i b hc
    cases h
    exact .inl ⟨b, hc, rfl, rfl⟩
  · rename_i hc
    split at h
    · rename_i b hr
      cases h
      exact .inr ⟨hc, b, hr, rfl, rfl⟩
    · cases h

section bget

variable {bufs bufs' : List Buf} {dev blockno id : Nat}

/--
`bget` は整合性と dirty な buffer を保ち、求めた block を持つ参照された buffer を返す。
`id` の違う buffer はそのまま残る。
-/
theorem bget_spec (hw : BufsWf bufs) (h : bget bufs dev blockno = .ok (bufs', id)) :
    BufsWf bufs' ∧ DirtyKept bufs bufs' ∧
    (∃ b ∈ bufs', b.id = id ∧ b.dev = dev ∧ b.blockno = blockno ∧ 0 < b.refcnt) ∧
    ∀ x ∈ bufs, x.id ≠ id → x ∈ bufs' := by
  rcases bget_cases h with ⟨b, hc, rfl, rfl⟩ | ⟨-, b, hr, rfl, rfl⟩
  · -- 見つかった：`refcnt` を増やすだけ
    obtain ⟨hb, hdev, hbn⟩ := cachedBuf_spec hc
    refine ⟨hw.updBuf (fun _ _ => rfl) fun y hy _ hd => hw.valid_of_dirty y hy hd,
      dirtyKept_updBuf fun _ _ _ hd => ⟨rfl, rfl, hd⟩, ?_, fun x hx hne => mem_updBuf_of_ne hx hne⟩
    exact ⟨_, mem_updBuf_self hb rfl, rfl, hdev, hbn, Nat.succ_pos _⟩
  · -- 付け替え：その buffer は参照されておらず dirty でない
    obtain ⟨hb, -, hbd⟩ := recyclableBuf_spec hr
    refine ⟨hw.updBuf (fun _ _ => rfl) fun _ _ _ hd => by simp at hd, dirtyKept_updBuf ?_, ?_,
      fun x hx hne => mem_updBuf_of_ne hx hne⟩
    · intro y hy he hd
      rw [hw.eq_of_id hy hb he, hbd] at hd
      cases hd
    · exact ⟨_, mem_updBuf_self hb rfl, rfl, rfl, rfl, Nat.one_pos⟩

/--
握られていて別の block を持つ buffer は、`bget` が返す buffer ではなく、そのまま残る。
-/
theorem bget_keeps (hw : BufsWf bufs) (h : bget bufs dev blockno = .ok (bufs', id)) {x : Buf}
    (hx : x ∈ bufs) (hheld : 0 < x.refcnt) (hkey : ¬(x.dev = dev ∧ x.blockno = blockno)) :
    x.id ≠ id ∧ x ∈ bufs' := by
  have hne : x.id ≠ id := by
    rcases bget_cases h with ⟨b, hc, rfl, -⟩ | ⟨-, b, hr, rfl, -⟩
    · obtain ⟨hb, hdev, hbn⟩ := cachedBuf_spec hc
      intro he
      rw [hw.eq_of_id hx hb he] at hkey
      exact hkey ⟨hdev, hbn⟩
    · obtain ⟨hb, hr0, -⟩ := recyclableBuf_spec hr
      intro he
      rw [hw.eq_of_id hx hb he, hr0] at hheld
      exact Nat.lt_irrefl 0 hheld
  exact ⟨hne, (bget_spec hw h).2.2.2 x hx hne⟩

end bget

/-! ## `brelse` と `setValid` -/

section brelse

variable {bufs : List Buf} {id : Nat} {x : Buf}

/-- `brelse` は `refcnt` を減らす。MRU への移動は並びだけを変える。 -/
theorem mem_brelse (hw : BufsWf bufs) :
    x ∈ brelse bufs id ↔ x ∈ updBuf bufs id fun b => { b with refcnt := b.refcnt - 1 } := by
  unfold brelse
  split
  · -- その `id` の buffer はない：どちらも元の列
    rename_i hn
    have hall : ∀ y ∈ bufs, y.id ≠ id := fun y hy he => by
      have := List.find?_eq_none.mp hn y hy
      simp [he] at this
    have hid : updBuf bufs id (fun b => { b with refcnt := b.refcnt - 1 }) = bufs := by
      unfold updBuf
      exact (List.map_congr_left fun y hy => if_neg (hall y hy)).trans (List.map_id _)
    rw [hid]
  · rename_i b hb
    have hbm := List.mem_of_find?_eq_some hb
    have hbid : b.id = id := by simpa using List.find?_some hb
    -- 書き換わるのは `b` だけである
    have hupd : ∀ y ∈ bufs, y.id = id → y = b := fun y hy he => hw.eq_of_id hy hbm (he.trans hbid.symm)
    dsimp only
    split
    · simp only [List.mem_cons, List.mem_filter, bne_iff_ne, ne_eq, mem_updBuf]
      constructor
      · rintro (rfl | ⟨hx, hne⟩)
        · exact ⟨b, hbm, by simp [hbid]⟩
        · exact ⟨x, hx, if_neg hne⟩
      · rintro ⟨y, hy, rfl⟩
        split
        · rename_i he
          left
          rw [hupd y hy he]
        · exact .inr ⟨hy, ‹_›⟩
    · simp only [mem_updBuf]
      constructor
      · rintro ⟨y, hy, rfl⟩
        refine ⟨y, hy, ?_⟩
        split
        · rename_i he
          rw [hupd y hy he]
        · rfl
      · rintro ⟨y, hy, rfl⟩
        refine ⟨y, hy, ?_⟩
        split
        · rename_i he
          rw [hupd y hy he]
        · rfl

/-- `brelse` は整合性を保つ。 -/
theorem BufsWf.brelse (hw : BufsWf bufs) : BufsWf (brelse bufs id) := by
  have hupd : BufsWf (Xv6.updBuf bufs id fun b => { b with refcnt := b.refcnt - 1 }) :=
    hw.updBuf (fun _ _ => rfl) fun y hy _ hd => hw.valid_of_dirty y hy hd
  refine ⟨?_, fun x hx => hupd.valid_of_dirty x ((mem_brelse hw).mp hx)⟩
  unfold Xv6.brelse
  split
  · exact hw.nodup
  · rename_i b hb
    have hbid : b.id = id := by simpa using List.find?_some hb
    dsimp only
    split
    · -- 先頭に移した `b` の `id` は、残りの列にない
      rw [List.map_cons, List.nodup_cons]
      refine ⟨?_, hw.nodup.sublist (List.filter_sublist.map Buf.id)⟩
      simp [hbid]
    · rw [map_id_updBuf fun _ he => by simp [hbid, he]]
      exact hw.nodup

theorem dirtyKept_brelse (hw : BufsWf bufs) : DirtyKept bufs (brelse bufs id) := by
  intro x hx hd
  obtain ⟨y, hy, h₁, h₂, h₃⟩ := dirtyKept_updBuf (f := fun b => { b with refcnt := b.refcnt - 1 })
    (fun _ _ _ hd => ⟨rfl, rfl, hd⟩) x hx hd
  exact ⟨y, (mem_brelse hw).mpr hy, h₁, h₂, h₃⟩

/-- `brelse` は、別の `id` の buffer を変えない。 -/
theorem mem_brelse_of_ne (hw : BufsWf bufs) (hx : x ∈ bufs) (hne : x.id ≠ id) : x ∈ brelse bufs id :=
  (mem_brelse hw).mpr (mem_updBuf_of_ne hx hne)

end brelse

section setValid

variable {bufs : List Buf} {id : Nat} {b : Buf}

/-- 読み込んだ buffer に `B_VALID` を立てる。その buffer は valid でなかったので dirty でもない。 -/
theorem setValid_spec (hw : BufsWf bufs) (hb : b ∈ bufs) (hbid : b.id = id) (hv : b.valid = false) :
    BufsWf (setValid bufs id) ∧ DirtyKept bufs (setValid bufs id) ∧
    { b with valid := true, dirty := false } ∈ setValid bufs id ∧
    ∀ x ∈ bufs, x.id ≠ id → x ∈ setValid bufs id := by
  have hbd : b.dirty = false := by
    cases hd : b.dirty
    · rfl
    · rw [hw.valid_of_dirty b hb hd] at hv
      cases hv
  refine ⟨hw.updBuf (fun _ _ => rfl) fun _ _ _ hd => by simp at hd, dirtyKept_updBuf ?_,
    mem_updBuf_self hb hbid, fun x hx hne => mem_updBuf_of_ne hx hne⟩
  intro y hy he hd
  rw [hw.eq_of_id hy hb (he.trans hbid.symm), hbd] at hd
  cases hd

end setValid

/-! ## 読み込み -/

section bread

variable {bufs bufs' : List Buf} {dev blockno id : Nat}

/-- `bread` の結果の buffer。求めた block を持ち、`B_VALID` で、握られている。 -/
def Holds (bufs : List Buf) (id dev blockno : Nat) : Prop :=
  ∃ b ∈ bufs, b.id = id ∧ b.dev = dev ∧ b.blockno = blockno ∧ b.valid = true ∧ 0 < b.refcnt

/-- root disk の `bread`。 -/
theorem breadDisk_spec (hw : BufsWf bufs) (h : breadDisk bufs dev blockno = .ok (bufs', id)) :
    BufsWf bufs' ∧ DirtyKept bufs bufs' ∧ Holds bufs' id dev blockno ∧
    ∀ x ∈ bufs, x.id ≠ id → x ∈ bufs' := by
  unfold breadDisk at h
  obtain ⟨⟨bufs₁, id₁⟩, hg, h⟩ := bind_eq_ok.mp h
  obtain ⟨hw₁, hk₁, ⟨b, hb, hbid, hdev, hbn, hr⟩, hfr₁⟩ := bget_spec hw hg
  dsimp only at h
  subst hbid
  rw [hw₁.find?_id hb] at h
  split at h
  · -- すでに valid：そのまま返す
    rename_i hv
    cases h
    exact ⟨hw₁, hk₁, ⟨b, hb, rfl, hdev, hbn, by simpa using hv, hr⟩, hfr₁⟩
  · -- device から読んで valid にする
    rename_i hv
    cases h
    obtain ⟨hw₂, hk₂, hb₂, hfr₂⟩ := setValid_spec hw₁ hb rfl (by simpa using hv)
    exact ⟨hw₂, hk₁.trans hk₂, ⟨_, hb₂, rfl, hdev, hbn, rfl, hr⟩,
      fun x hx hne => hfr₂ x (hfr₁ x hx hne) hne⟩

/-- 握られていて別の device の buffer は、root disk の `bread` の後も残る。 -/
theorem breadDisk_keeps (hw : BufsWf bufs) (h : breadDisk bufs dev blockno = .ok (bufs', id))
    {x : Buf} (hx : x ∈ bufs) (hheld : 0 < x.refcnt) (hdev : x.dev ≠ dev) : x.id ≠ id ∧ x ∈ bufs' := by
  unfold breadDisk at h
  obtain ⟨⟨bufs₁, id₁⟩, hg, h⟩ := bind_eq_ok.mp h
  obtain ⟨hne, hx₁⟩ := bget_keeps hw hg hx hheld fun hk => hdev hk.1
  dsimp only at h
  split at h <;> cases h
  · exact ⟨hne, hx₁⟩
  · exact ⟨hne, mem_updBuf_of_ne hx₁ hne⟩

/--
`loopdev_read` の読み込み。整合性と dirty な buffer を保ち、握られていて root disk でない
buffer を変えない。
-/
theorem readImage_spec (hw : BufsWf bufs) {rs : List Nat} (h : readImage bufs rs = .ok bufs') :
    BufsWf bufs' ∧ DirtyKept bufs bufs' ∧
    ∀ x ∈ bufs, 0 < x.refcnt → x.dev ≠ ROOTDEV → x ∈ bufs' := by
  induction rs generalizing bufs with
  | nil => cases h; exact ⟨hw, .refl _, fun _ hx _ _ => hx⟩
  | cons r rs ih =>
    unfold readImage at h
    cases hr : breadDisk bufs ROOTDEV r with
    | error e => rw [runList_cons_error (by rw [hr]; rfl)] at h; cases h
    | ok p =>
      obtain ⟨bufs₁, id₁⟩ := p
      rw [runList_cons_ok (by rw [hr]; rfl)] at h
      -- 一つ読んで放した後の列から、残りを読む
      obtain ⟨hw₁, hk₁, -, -⟩ := breadDisk_spec hw hr
      obtain ⟨hw₂, hk₂, hkeep⟩ := ih hw₁.brelse h
      refine ⟨hw₂, hk₁.trans ((dirtyKept_brelse hw₁).trans hk₂), fun x hx hheld hdev => ?_⟩
      obtain ⟨hne, hx₁⟩ := breadDisk_keeps hw hr hx hheld hdev
      exact hkeep x (mem_brelse_of_ne hw₁ hx₁ hne) hheld hdev

/-- **`bread` の結果。** 整合性と dirty な buffer を保ち、求めた block を持つ valid な buffer を握る。 -/
theorem bread_spec {imgRead : Nat → List Nat} (hw : BufsWf bufs)
    (h : bread imgRead bufs dev blockno = .ok (bufs', id)) :
    BufsWf bufs' ∧ DirtyKept bufs bufs' ∧ Holds bufs' id dev blockno := by
  unfold bread at h
  obtain ⟨⟨bufs₁, id₁⟩, hg, h⟩ := bind_eq_ok.mp h
  obtain ⟨hw₁, hk₁, ⟨b, hb, hbid, hdev, hbn, hr⟩, -⟩ := bget_spec hw hg
  dsimp only at h
  subst hbid
  rw [hw₁.find?_id hb] at h
  split at h
  · rename_i hv
    cases h
    exact ⟨hw₁, hk₁, b, hb, rfl, hdev, hbn, by simpa using hv, hr⟩
  · rename_i hv
    have hv : b.valid = false := by simpa using hv
    split at h
    · -- loop device：握ったまま backing file を読み、それから valid にする
      rename_i hloop
      obtain ⟨bufs₂, hri, h⟩ := bind_eq_ok.mp h
      cases h
      obtain ⟨hw₂, hk₂, hkeep⟩ := readImage_spec hw₁ hri
      have hroot : b.dev ≠ ROOTDEV := fun he => by
        rw [← hdev, he, isloopdev_ROOTDEV] at hloop
        cases hloop
      obtain ⟨hw₃, hk₃, hb₃, -⟩ := setValid_spec hw₂ (hkeep b hb hr hroot) rfl hv
      exact ⟨hw₃, hk₁.trans (hk₂.trans hk₃), _, hb₃, rfl, hdev, hbn, rfl, hr⟩
    · cases h
      obtain ⟨hw₂, hk₂, hb₂, -⟩ := setValid_spec hw₁ hb rfl hv
      exact ⟨hw₂, hk₁.trans hk₂, _, hb₂, rfl, hdev, hbn, rfl, hr⟩

end bread

/-! ## 同じ block を持つ buffer -/

/-- 参照されているか、`B_VALID` の buffer。 -/
def Buf.live (b : Buf) : Bool := 0 < b.refcnt || b.valid

/--
生きている buffer は、`bget` の一つ目の探索が見つける、その block を持つ最初の buffer である。
同じ block を持つ古い buffer が列に残っていても、それは生きた buffer より後ろにある。
-/
def CacheFirst (bufs : List Buf) : Prop :=
  ∀ b ∈ bufs, b.live → cachedBuf bufs b.dev b.blockno = some b

/-- `p` で見つかる `y` は、`y` を満たし `p` より強い `q` でも見つかる。 -/
theorem find?_of_imp {α : Type*} {p q : α → Bool} {l : List α} {y : α} (h : l.find? p = some y)
    (hq : q y = true) (himp : ∀ x ∈ l, q x = true → p x = true) : l.find? q = some y := by
  obtain ⟨-, as, bs, rfl, has⟩ := List.find?_eq_some_iff_append.mp h
  refine List.find?_eq_some_iff_append.mpr ⟨hq, as, bs, rfl, fun a ha => ?_⟩
  have hpa := has a ha
  cases hqa : q a
  · rfl
  · simp [himp a (by simp [ha]) hqa] at hpa

section first

variable {bufs bufs' : List Buf} {b : Buf} {id dev blockno : Nat} {f : Buf → Buf}

theorem updBuf_congr {g : Buf → Buf} (h : ∀ x ∈ bufs, x.id = id → f x = g x) :
    updBuf bufs id f = updBuf bufs id g := by
  unfold updBuf
  refine List.map_congr_left fun x hx => ?_
  by_cases hxid : x.id = id
  · rw [if_pos hxid, if_pos hxid, h x hx hxid]
  · rw [if_neg hxid, if_neg hxid]

/-- block を変えない書き換えの後も、一つ目の探索は同じ buffer を見つける。 -/
theorem cachedBuf_updBuf (hf : ∀ x, x.id = id → (f x).dev = x.dev ∧ (f x).blockno = x.blockno) :
    cachedBuf (updBuf bufs id f) dev blockno =
      (cachedBuf bufs dev blockno).map fun x => if x.id = id then f x else x := by
  unfold cachedBuf updBuf
  rw [List.find?_map]
  congr 2
  funext x
  by_cases hx : x.id = id
  · simp [hx, hf x hx]
  · simp [hx]

/-- 同じ block を持つ生きた buffer は一つしかない。 -/
theorem CacheFirst.unique (hc : CacheFirst bufs) {b' : Buf} (hb : b ∈ bufs) (hb' : b' ∈ bufs)
    (hl : b.live) (hl' : b'.live) (hdev : b.dev = b'.dev) (hbn : b.blockno = b'.blockno) : b = b' := by
  have h₁ := hc b hb hl
  rw [hdev, hbn, hc b' hb' hl'] at h₁
  exact (Option.some.inj h₁).symm

/--
block を変えない一つの buffer の書き換え。書き換えた buffer が生きていれば、それは元の列でその block
を持つ最初の buffer である。
-/
theorem CacheFirst.updBuf (hc : CacheFirst bufs)
    (hf : ∀ x, x.id = id → (f x).dev = x.dev ∧ (f x).blockno = x.blockno)
    (hlive : ∀ x ∈ bufs, x.id = id → (f x).live → cachedBuf bufs x.dev x.blockno = some x) :
    CacheFirst (updBuf bufs id f) := by
  intro y hy hl
  obtain ⟨x, hx, rfl⟩ := mem_updBuf.mp hy
  rw [cachedBuf_updBuf hf]
  by_cases hxid : x.id = id
  · rw [if_pos hxid] at hl ⊢
    rw [(hf x hxid).1, (hf x hxid).2, hlive x hx hxid hl]
    simp [hxid]
  · rw [if_neg hxid] at hl ⊢
    rw [hc x hx hl]
    simp [hxid]

/--
**`bget` は、生きた buffer が最初に見つかることを保つ。** 見つけた buffer はその block を持つ最初の
buffer である。付け替える buffer の新しい block は、列のどの buffer も持っていない。
-/
theorem CacheFirst.bget (hc : CacheFirst bufs) (hnd : (bufs.map Buf.id).Nodup)
    (h : bget bufs dev blockno = .ok (bufs', id)) : CacheFirst bufs' := by
  rcases bget_cases h with ⟨b, hb, rfl, rfl⟩ | ⟨hnone, b, hr, rfl, rfl⟩
  · obtain ⟨hbm, hdev, hbn⟩ := cachedBuf_spec hb
    refine hc.updBuf (fun _ _ => ⟨rfl, rfl⟩) fun x hx hxid _ => ?_
    rw [eq_of_id_of_nodup hnd hx hbm hxid, hdev, hbn, hb]
  · obtain ⟨hbm, -, -⟩ := recyclableBuf_spec hr
    have hfresh := cachedBuf_eq_none hnone
    -- 付け替えた buffer だけが新しい block を持つ
    intro y hy hl
    obtain ⟨x, hx, rfl⟩ := mem_updBuf.mp hy
    unfold cachedBuf Xv6.updBuf
    rw [List.find?_map]
    by_cases hxid : x.id = b.id
    · rw [if_pos hxid]
      have hxb := eq_of_id_of_nodup hnd hx hbm hxid
      subst hxb
      rw [find?_of_imp (find?_id_of_nodup hnd hx) (by simp) fun z hz hq => ?_]
      · simp
      · by_cases hzid : z.id = x.id
        · simp [hzid]
        · simp only [Function.comp_apply, hzid, if_false, Bool.and_eq_true, beq_iff_eq] at hq
          exact absurd hq (hfresh z hz)
    · rw [if_neg hxid] at hl ⊢
      rw [find?_of_imp (hc x hx hl) (by simp [hxid]) fun z hz hq => ?_]
      · simp [hxid]
      · by_cases hz : z.id = b.id
        · -- 新しい block は `x` の block ではない
          simp only [Function.comp_apply, hz, if_true, Bool.and_eq_true, beq_iff_eq] at hq
          exact absurd ⟨hq.1.symm, hq.2.symm⟩ (hfresh x hx)
        · simpa [hz] using hq

/--
**握っている buffer の `brelse` は、生きた buffer が最初に見つかることを保つ。** 先頭に移る buffer は
生きていたので、同じ block を持つ生きた buffer はほかにない。
-/
theorem CacheFirst.brelse (hc : CacheFirst bufs) (hnd : (bufs.map Buf.id).Nodup) (hb : b ∈ bufs)
    (hbid : b.id = id) (hheld : 0 < b.refcnt) : CacheFirst (brelse bufs id) := by
  have hbl : b.live := by simp [Buf.live, hheld]
  unfold Xv6.brelse
  rw [← hbid, find?_id_of_nodup hnd hb]
  dsimp only
  split
  · intro y hy hl
    rcases List.mem_cons.mp hy with rfl | hy
    · simp [cachedBuf]
    · obtain ⟨hy, hyid⟩ := List.mem_filter.mp hy
      have hyid : y.id ≠ b.id := by simpa using hyid
      -- `b` の block は `y` の block ではない
      have hkey : ¬(b.dev = y.dev ∧ b.blockno = y.blockno) := fun ⟨h₁, h₂⟩ =>
        hyid (congrArg Buf.id (hc.unique hb hy hbl hl h₁ h₂)).symm
      unfold cachedBuf
      rw [List.find?_cons, List.find?_filter]
      have hb' : ((b.dev == y.dev && b.blockno == y.blockno) = false) := by
        simpa using hkey
      simp only [hb']
      refine find?_of_imp (hc y hy hl) (by simp [hyid]) fun z _ hq => ?_
      simp only [decide_eq_true_eq] at hq
      exact hq.2
  · -- 書き換えるのは `b` だけなので、`refcnt` を一つ減らす書き換えと同じである
    rw [updBuf_congr (g := fun x => { x with refcnt := x.refcnt - 1 }) fun x hx hxid => by
      rw [eq_of_id_of_nodup hnd hx hb hxid]]
    refine hc.updBuf (fun _ _ => ⟨rfl, rfl⟩) fun x hx hxid _ => ?_
    rw [eq_of_id_of_nodup hnd hx hb hxid]
    exact hc b hb hbl

end first

end Xv6

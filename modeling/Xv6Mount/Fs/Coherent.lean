import Xv6Mount.Fs.Path

/-!
# icache が disk を正しく映していること

path の解決を icache の外の言葉（位置 `(dev, inum)` と disk の dinode）で述べるために、
icache が満たしているべきことをまとめる（`Fs.Sound`）。

* ロックを持つ slot はない（system call の間）
* 参照のある slot は `NINODE` 未満で、互いに違う inode を持つ
* 参照があって読み込み済みの slot の `type`・`nlink` は disk の dinode と同じである
* disk の割り当て済みの inode は link を持つ（`mkfs` の作る disk）

namex は途中で slot を取り替え、ロックを取っては放す。始めの icache `fs₀` に対して今の
icache `fs` が保つことを `Tracks fs₀ fs lk` とし（`lk` はロック中の slot）、各操作が
これを保つことを示す。namex が触る device は読める device（`Fs.live`）に限る。
loop device なら、背後の file の slot に参照があるので、途中でほかの inode に使い回されない。
-/

namespace Xv6

open Infra

/-- device `dev` を読める：loop device でないか、参照のある root disk 上の file を背後に持つ。 -/
def Fs.live (fs : Fs) (dev : Nat) : Bool :=
  !isloopdev dev ||
    match getlloopdevi fs.loopdevtable dev with
    | .ok (some b) => decide (0 < (fs.icache b).ref) && !isloopdev (fs.icache b).dev
    | _ => false

/-- 位置 `loc` の dinode。読めなければ 0 の dinode。 -/
def Fs.nodeAt (fs : Fs) (loc : Nat × Nat) : Dinode :=
  match fs.readDinode loc.1 loc.2 with
  | .ok d => d
  | .error _ => ⟨0, 0, []⟩

/-- system call の間の icache が disk を正しく映していること。 -/
structure Fs.Sound (fs : Fs) : Prop where
  unlocked : ∀ x, (fs.icache x).locked = false
  bound : ∀ x, 0 < (fs.icache x).ref → x < NINODE
  keys_inj : ∀ x y, 0 < (fs.icache x).ref → 0 < (fs.icache y).ref → fs.keys x = fs.keys y → x = y
  coherent : ∀ x, 0 < (fs.icache x).ref → (fs.icache x).valid = true → fs.live (fs.icache x).dev = true →
    (fs.icache x).type = (fs.nodeAt (fs.keys x)).type ∧ (fs.icache x).type ≠ 0 ∧
      (fs.icache x).nlink = (fs.nodeAt (fs.keys x)).nlink
  linked : ∀ v n, (fs.disk v n).type ≠ 0 → 1 ≤ (fs.disk v n).nlink

/--
namex の途中の icache `fs` が、始めの icache `fs₀` の disk・loop device・参照のある slot を保ち、
disk を正しく映していること。ロックを持つのは `lk` だけである。
-/
structure Tracks (fs₀ fs : Fs) (lk : Option Nat) : Prop where
  sound : fs₀.Sound
  disk : fs.disk = fs₀.disk
  loopdevtable : fs.loopdevtable = fs₀.loopdevtable
  ref_le : ∀ x, (fs₀.icache x).ref ≤ (fs.icache x).ref
  keys : ∀ x, 0 < (fs₀.icache x).ref → fs.keys x = fs₀.keys x
  locked : ∀ x, (fs.icache x).locked = true → lk = some x
  bound : ∀ x, 0 < (fs.icache x).ref → x < NINODE
  keys_inj : ∀ x y, 0 < (fs.icache x).ref → 0 < (fs.icache y).ref → fs.keys x = fs.keys y → x = y
  coherent : ∀ x, 0 < (fs.icache x).ref → (fs.icache x).valid = true → fs₀.live (fs.icache x).dev = true →
    (fs.icache x).type = (fs₀.nodeAt (fs.keys x)).type ∧ (fs.icache x).type ≠ 0 ∧
      (fs.icache x).nlink = (fs₀.nodeAt (fs.keys x)).nlink

variable {fs₀ fs fs' : Fs} {lk : Option Nat} {x : Nat}

/-- 始めの icache は自分自身を保っている。 -/
theorem Tracks.init (h : fs₀.Sound) : Tracks fs₀ fs₀ none where
  sound := h
  disk := rfl
  loopdevtable := rfl
  ref_le := fun _ => Int.le_refl _
  keys := fun _ _ => rfl
  locked := fun x hx => by simp [h.unlocked x] at hx
  bound := h.bound
  keys_inj := h.keys_inj
  coherent := h.coherent

/-! ## disk を読む -/

/--
読める device の dinode は、始めの icache で読んだものと同じである。ロック中の slot が
あっても、それが読む device の上の inode なら、背後の file の slot ではない。
-/
theorem Tracks.readDinode (ht : Tracks fs₀ fs lk) {d : Nat} (hd : fs₀.live d = true)
    (hlk : ∀ y, lk = some y → (fs.icache y).dev = d) (inum : Nat) :
    fs.readDinode d inum = .ok (fs₀.nodeAt (d, inum)) := by
  unfold Fs.nodeAt
  cases hl : isloopdev d with
  | false => simp [Fs.readDinode, Fs.volOf, hl, ht.disk, pure, Except.pure]
  | true =>
    simp only [Fs.live, hl, Bool.not_true, Bool.false_or] at hd
    cases hg : getlloopdevi fs₀.loopdevtable d with
    | error e => simp [hg] at hd
    | ok ob =>
      cases ob with
      | none => simp [hg] at hd
      | some b =>
        simp only [hg, Bool.and_eq_true, decide_eq_true_eq, Bool.not_eq_eq_eq_not, Bool.not_true] at hd
        obtain ⟨hb, hbd⟩ := hd
        have hkb := ht.keys b hb
        simp only [Fs.keys, Prod.mk.injEq] at hkb
        -- 背後の file の slot は、ロック中の slot（loop device の上の inode）ではない
        have hbl : (fs.icache b).locked = false := by
          cases hlb : (fs.icache b).locked with
          | false => rfl
          | true =>
            have := hlk b (ht.locked b hlb)
            rw [hkb.1] at this
            rw [this, hl] at hbd
            cases hbd
        have hrb : ¬ (fs.icache b).ref < 1 := by have := ht.ref_le b; omega
        have hrb₀ : ¬ (fs₀.icache b).ref < 1 := by omega
        simp [Fs.readDinode, Fs.volOf, hl, hg, ht.loopdevtable, hrb, hbl, hrb₀,
          ht.sound.unlocked b, hkb.1, hkb.2, ht.disk, bind, Except.bind, pure, Except.pure]

/-- 読める device の、型のある dinode は link を持つ。 -/
theorem Fs.Sound.nodeAt_nlink (h : fs₀.Sound) {loc : Nat × Nat} (hd : fs₀.live loc.1 = true)
    (ht : (fs₀.nodeAt loc).type ≠ 0) : 1 ≤ (fs₀.nodeAt loc).nlink := by
  have hr := (Tracks.init h).readDinode hd (by simp) loc.2
  unfold Fs.readDinode at hr
  obtain ⟨v, hv, hd'⟩ := bind_eq_ok.mp hr
  simp only [pure_eq_ok, Except.ok.injEq] at hd'
  rw [← hd'] at ht ⊢
  exact h.linked v loc.2 ht

/-! ## ロック -/

/-- ロックのほかを変えない書き換えは、保つものを変えない。 -/
theorem Tracks.of_locks {lk' : Option Nat} (ht : Tracks fs₀ fs lk) (hd : fs'.disk = fs.disk)
    (hl : fs'.loopdevtable = fs.loopdevtable)
    (hi : ∀ y, fs'.icache y = { fs.icache y with locked := (fs'.icache y).locked })
    (hlk : ∀ y, (fs'.icache y).locked = true → lk' = some y) : Tracks fs₀ fs' lk' := by
  have href : ∀ y, (fs'.icache y).ref = (fs.icache y).ref := fun y => by rw [hi y]
  have hkeys : fs'.keys = fs.keys := by
    funext y
    simp only [Fs.keys]
    rw [hi y]
  have hval : ∀ y, (fs'.icache y).valid = (fs.icache y).valid := fun y => by rw [hi y]
  have htype : ∀ y, (fs'.icache y).type = (fs.icache y).type := fun y => by rw [hi y]
  have hnlink : ∀ y, (fs'.icache y).nlink = (fs.icache y).nlink := fun y => by rw [hi y]
  have hdev : ∀ y, (fs'.icache y).dev = (fs.icache y).dev := fun y => by rw [hi y]
  refine ⟨ht.sound, hd.trans ht.disk, hl.trans ht.loopdevtable, ?_, ?_, hlk, ?_, ?_, ?_⟩
  · intro y
    rw [href]
    exact ht.ref_le y
  · intro y hy
    rw [hkeys]
    exact ht.keys y hy
  · intro y hy
    rw [href] at hy
    exact ht.bound y hy
  · intro y z hy hz hyz
    rw [href] at hy hz
    rw [hkeys] at hyz
    exact ht.keys_inj y z hy hz hyz
  · intro y hy hv hd'
    rw [href] at hy
    rw [hval] at hv
    rw [hdev] at hd'
    rw [htype, hnlink, hkeys]
    exact ht.coherent y hy hv hd'

/-- ロックを取る。 -/
theorem Tracks.lock (ht : Tracks fs₀ fs none) :
    Tracks fs₀ (fs.modify x fun i => { i with locked := true }) (some x) := by
  refine ht.of_locks rfl rfl (fun y => ?_) (fun y hy => ?_)
  · by_cases hy : y = x
    · subst hy; simp
    · simp [hy]
  · by_cases hyx : y = x
    · rw [hyx]
    · simp [hyx] at hy
      simpa using ht.locked y hy

/-- ロックを放す。 -/
theorem Tracks.unlock (ht : Tracks fs₀ fs (some x)) :
    Tracks fs₀ (fs.modify x fun i => { i with locked := false }) none := by
  refine ht.of_locks rfl rfl (fun y => ?_) (fun y hy => ?_)
  · by_cases hy : y = x
    · subst hy; simp
    · simp [hy]
  · by_cases hyx : y = x
    · subst hyx; simp at hy
    · simp [hyx] at hy
      exact absurd (ht.locked y hy) (by simpa using Ne.symm hyx)

/-- 読み込んだ `type`・`nlink` を slot `x` に書く。値は disk の dinode である。 -/
theorem Tracks.load {d : Dinode} (ht : Tracks fs₀ fs lk) (hdn : d = fs₀.nodeAt (fs.keys x))
    (ht0 : d.type ≠ 0) :
    Tracks fs₀ (fs.modify x fun i => { i with type := d.type, nlink := d.nlink, valid := true }) lk := by
  have hkeys : (fs.modify x fun i => { i with type := d.type, nlink := d.nlink, valid := true }).keys =
      fs.keys :=
    Fs.keys_modify_of fun _ => ⟨rfl, rfl⟩
  have href : ∀ y, ((fs.modify x fun i => { i with type := d.type, nlink := d.nlink, valid := true }).icache
      y).ref = (fs.icache y).ref := by
    intro y
    by_cases hy : y = x
    · subst hy; simp
    · simp [hy]
  refine ⟨ht.sound, ht.disk, ht.loopdevtable, fun y => href y ▸ ht.ref_le y,
    fun y hy => hkeys ▸ ht.keys y hy, fun y hy => ?_, fun y hy => ht.bound y (href y ▸ hy),
    fun y z hy hz hyz => ht.keys_inj y z (href y ▸ hy) (href z ▸ hz) (hkeys ▸ hyz), ?_⟩
  · by_cases hyx : y = x
    · subst hyx; simp at hy; exact ht.locked y hy
    · simp [hyx] at hy; exact ht.locked y hy
  · intro y hy hv hd
    rw [hkeys]
    by_cases hyx : y = x
    · subst hyx hdn
      simpa using ht0
    · simp only [Fs.modify_icache_of_ne _ _ _ hyx] at hy hv hd ⊢
      exact ht.coherent y hy hv hd

/-! ## 参照を増やす・減らす -/

/-- `iget` の一つ目の探索が失敗すれば、表の中に参照のある同じ inode はない。 -/
theorem cachedSlot_none {d i y : Nat} (h : cachedSlot fs d i = none) (hy : y < NINODE)
    (hr : 0 < (fs.icache y).ref) : fs.keys y ≠ (d, i) := by
  intro hk
  simp only [Fs.keys, Prod.mk.injEq] at hk
  have := List.find?_eq_none.mp h y (List.mem_range.mpr hy)
  simp [hr, hk.1, hk.2] at this

/-- **`iget`。** 返した slot は求めた inode を持ち、参照のある slot の inode は変わらない。 -/
theorem iget_tracks {d i r : Nat} (ht : Tracks fs₀ fs lk) (h : iget fs d i = .ok (fs', r)) :
    Tracks fs₀ fs' lk ∧ fs'.refs = fs.refs + Pi.single r 1 ∧ fs'.keys r = (d, i) ∧
      ∀ y, 0 < (fs.icache y).ref → fs'.keys y = fs.keys y := by
  obtain ⟨hr, hrefs, hkeys, hdisk, hlt⟩ := iget_spec h
  have hkr : fs'.keys r = (d, i) := by simp [hkeys]
  rcases iget_cases h with ⟨hc, rfl⟩ | ⟨hc, he, rfl⟩
  · -- 参照のある同じ inode の slot：参照を一つ増やすだけ
    obtain ⟨-, hpos, hd, hi⟩ := cachedSlot_spec hc
    have hk : (fs.modify r fun ip => { ip with ref := ip.ref + 1 }).keys = fs.keys :=
      Fs.keys_modify_of fun _ => ⟨rfl, rfl⟩
    have href : ∀ y, (fs.icache y).ref ≤ ((fs.modify r fun ip => { ip with ref := ip.ref + 1 }).icache y).ref := by
      intro y
      by_cases hy : y = r
      · subst hy; simp only [Fs.modify_icache_self]; omega
      · simp [hy]
    have hpos' : ∀ y, 0 < ((fs.modify r fun ip => { ip with ref := ip.ref + 1 }).icache y).ref →
        0 < (fs.icache y).ref := by
      intro y hy
      by_cases hyr : y = r
      · subst hyr; exact hpos
      · simpa [hyr] using hy
    refine ⟨⟨ht.sound, hdisk.trans ht.disk, hlt.trans ht.loopdevtable,
      fun y => Int.le_trans (ht.ref_le y) (href y), fun y hy => hk ▸ ht.keys y hy, fun y hy => ?_,
      fun y hy => ht.bound y (hpos' y hy),
      fun y z hy hz hyz => ht.keys_inj y z (hpos' y hy) (hpos' z hz) (hk ▸ hyz), ?_⟩,
      hrefs, hkr, fun y _ => by rw [hk]⟩
    · by_cases hyr : y = r
      · subst hyr; simp at hy; exact ht.locked y hy
      · simp [hyr] at hy; exact ht.locked y hy
    · intro y hy hv hd'
      rw [hk]
      by_cases hyr : y = r
      · subst hyr
        simp only [Fs.modify_icache_self] at hv hd' ⊢
        exact ht.coherent y hpos hv hd'
      · simp only [Fs.modify_icache_of_ne _ _ _ hyr] at hy hv hd' ⊢
        exact ht.coherent y hy hv hd'
  · -- 参照のない slot を使い回す：読み込み前の印をつける
    obtain ⟨-, h0⟩ := emptySlot_spec he
    set fs₁ := fs.modify r fun ip => { ip with dev := d, inum := i, ref := 1, valid := false } with hfs₁
    have hne : ∀ y, y ≠ r → fs₁.icache y = fs.icache y := fun y hy => Fs.modify_icache_of_ne _ _ _ hy
    have hkey : ∀ y, y ≠ r → fs₁.keys y = fs.keys y := fun y hy => by simp [Fs.keys, hne y hy]
    have hr0 : ∀ y, 0 < (fs.icache y).ref → y ≠ r := fun y hy e => by subst e; omega
    refine ⟨⟨ht.sound, hdisk.trans ht.disk, hlt.trans ht.loopdevtable, ?_, ?_, ?_, ?_, ?_, ?_⟩,
      hrefs, hkr, fun y hy => hkey y (hr0 y hy)⟩
    · intro y
      by_cases hyr : y = r
      · subst hyr
        have := ht.ref_le y
        simp only [hfs₁, Fs.modify_icache_self]
        omega
      · rw [hne y hyr]
        exact ht.ref_le y
    · intro y hy
      have hyr : y ≠ r := fun e => by subst e; have := ht.ref_le y; omega
      rw [hkey y hyr]
      exact ht.keys y hy
    · intro y hy
      by_cases hyr : y = r
      · subst hyr
        simp only [hfs₁, Fs.modify_icache_self] at hy
        exact ht.locked y hy
      · rw [hne y hyr] at hy
        exact ht.locked y hy
    · intro y hy
      by_cases hyr : y = r
      · exact hyr ▸ hr
      · rw [hne y hyr] at hy
        exact ht.bound y hy
    · intro y z hy hz hyz
      by_cases hyr : y = r <;> by_cases hzr : z = r
      · rw [hyr, hzr]
      · -- 参照のある別の slot に同じ inode があれば、一つ目の探索で見つかっていた
        rw [hne z hzr] at hz
        rw [hyr, hkr, hkey z hzr] at hyz
        exact absurd hyz.symm (cachedSlot_none hc (ht.bound z hz) hz)
      · rw [hne y hyr] at hy
        rw [hzr, hkr, hkey y hyr] at hyz
        exact absurd hyz (cachedSlot_none hc (ht.bound y hy) hy)
      · rw [hne y hyr] at hy
        rw [hne z hzr] at hz
        rw [hkey y hyr, hkey z hzr] at hyz
        exact ht.keys_inj y z hy hz hyz
    · intro y hy hv hd'
      by_cases hyr : y = r
      · subst hyr
        simp [hfs₁] at hv
      · rw [hne y hyr] at hy hv hd' ⊢
        rw [hkey y hyr]
        exact ht.coherent y hy hv hd'

/-- `idup` は参照のある slot の参照を一つ増やす。 -/
theorem idup_tracks (ht : Tracks fs₀ fs lk) (hx : 0 < (fs.icache x).ref) : Tracks fs₀ (idup fs x) lk := by
  have hk : (idup fs x).keys = fs.keys := idup_keys
  have hpos' : ∀ y, 0 < ((idup fs x).icache y).ref → 0 < (fs.icache y).ref := by
    intro y hy
    by_cases hyx : y = x
    · subst hyx; exact hx
    · simpa [idup, hyx] using hy
  refine ⟨ht.sound, ht.disk, ht.loopdevtable, fun y => ?_, fun y hy => hk ▸ ht.keys y hy,
    fun y hy => ?_, fun y hy => ht.bound y (hpos' y hy),
    fun y z hy hz hyz => ht.keys_inj y z (hpos' y hy) (hpos' z hz) (hk ▸ hyz), fun y hy hv hd => ?_⟩
  · have := ht.ref_le y
    by_cases hyx : y = x
    · subst hyx; simp [idup]; omega
    · simpa [idup, hyx] using this
  · by_cases hyx : y = x
    · subst hyx; simp [idup] at hy; exact ht.locked y hy
    · simp [idup, hyx] at hy; exact ht.locked y hy
  · rw [hk]
    by_cases hyx : y = x
    · subst hyx
      simp only [idup, Fs.modify_icache_self] at hv hd ⊢
      exact ht.coherent y hx hv hd
    · simp only [idup, Fs.modify_icache_of_ne _ _ _ hyx] at hy hv hd ⊢
      exact ht.coherent y hy hv hd

/--
**`iput`。** namex が自分で取った参照を放す。読める device の上の inode は link を持つので、
最後の参照でも disk の inode は解放されない。
-/
theorem iput_tracks (ht : Tracks fs₀ fs lk) (hlt : (fs₀.icache x).ref < (fs.icache x).ref)
    (hd : fs₀.live (fs.icache x).dev = true) (h : iput fs x = .ok fs') :
    Tracks fs₀ fs' lk ∧ fs'.refs = fs.refs - Pi.single x 1 ∧ fs'.keys = fs.keys := by
  obtain ⟨hrefs, hkeys, -⟩ := iput_spec h
  unfold iput at h
  rw [if_neg (by intro hl; simp [hl] at h)] at h
  obtain ⟨fs₁, hf, h₂⟩ := bind_eq_ok.mp h
  -- `iputFree` は何もしない：最後の参照でも `nlink` は 0 でない
  have hfree : fs₁ = fs := by
    unfold iputFree at hf
    dsimp only at hf
    split at hf
    · rename_i hc
      simp only [Bool.and_eq_true, beq_iff_eq] at hc
      obtain ⟨⟨hv, hn⟩, hr⟩ := hc
      obtain ⟨hty, hty0, hnl⟩ := ht.coherent x (by omega) hv hd
      have : 1 ≤ (fs₀.nodeAt (fs.keys x)).nlink := ht.sound.nodeAt_nlink hd (hty ▸ hty0)
      omega
    · cases hf
      rfl
  subst hfree
  simp only [pure_eq_ok, Except.ok.injEq] at h₂
  subst h₂
  -- `iputDrop` の後、参照のある slot は前から参照があり、欄も変わらない
  have hpos' : ∀ y, 0 < ((iputDrop fs₁ x).icache y).ref →
      0 < (fs₁.icache y).ref ∧ (iputDrop fs₁ x).icache y = { fs₁.icache y with ref := ((iputDrop fs₁ x).icache y).ref } := by
    intro y hy
    by_cases hyx : y = x
    · subst hyx
      simp only [iputDrop, Fs.modify_icache_self] at hy ⊢
      split at hy
      · simp at hy
      · rename_i hne
        simp only [hne, if_false]
        dsimp only at hy
        exact ⟨by omega, by simp⟩
    · simp only [iputDrop, Fs.modify_icache_of_ne _ _ _ hyx] at hy ⊢
      exact ⟨hy, by simp⟩
  refine ⟨⟨ht.sound, ht.disk, ht.loopdevtable, fun y => ?_, fun y hy => hkeys ▸ ht.keys y hy,
    fun y hy => ?_, fun y hy => ht.bound y (hpos' y hy).1,
    fun y z hy hz hyz => ht.keys_inj y z (hpos' y hy).1 (hpos' z hz).1 (hkeys ▸ hyz),
    fun y hy hv hd' => ?_⟩, hrefs, hkeys⟩
  · have := ht.ref_le y
    by_cases hyx : y = x
    · subst hyx
      simp only [iputDrop, Fs.modify_icache_self]
      split <;> (dsimp only; omega)
    · simpa [iputDrop, hyx] using this
  · by_cases hyx : y = x
    · subst hyx
      simp only [iputDrop, Fs.modify_icache_self] at hy
      split at hy <;> exact ht.locked y hy
    · simp only [iputDrop, Fs.modify_icache_of_ne _ _ _ hyx] at hy
      exact ht.locked y hy
  · obtain ⟨hy₁, heq⟩ := hpos' y hy
    rw [heq] at hv hd' ⊢
    rw [hkeys]
    exact ht.coherent y hy₁ hv hd'

/-! ## ロックを取って読む -/

/--
**`ilock`。** 読める device の上の inode をロックすると、その `type` は disk の dinode のものになる。
参照と各 slot の inode は変わらない。
-/
theorem ilock_tracks (ht : Tracks fs₀ fs none) (hd : fs₀.live (fs.icache x).dev = true)
    (h : ilock fs x = .ok fs') :
    Tracks fs₀ fs' (some x) ∧ fs'.refs = fs.refs ∧ fs'.keys = fs.keys ∧
      (fs'.icache x).type = (fs₀.nodeAt (fs.keys x)).type := by
  obtain ⟨hrefs, hkeys, -, -⟩ := ilock_spec h
  obtain ⟨hr, -, ⟨hv, rfl⟩ | ⟨-, d, hd', ht0, rfl⟩⟩ := ilock_cases h
  · -- 読み込み済みの inode は disk と同じ `type` を持つ
    refine ⟨ht.lock, hrefs, hkeys, ?_⟩
    simp only [Fs.modify_icache_self]
    exact (ht.coherent x (by omega) hv hd).1
  · -- disk から読む。ロック中の slot は `x` で、読むのは `x` の device である
    have hl : Tracks fs₀ (fs.modify x fun i => { i with locked := true }) (some x) := ht.lock
    have hread := hl.readDinode hd (fun y hy => by cases hy; simp) (fs.icache x).inum
    rw [hd', Except.ok.injEq] at hread
    have hkeys' : (fs.modify x fun i => { i with locked := true }).keys = fs.keys :=
      Fs.keys_modify_of fun _ => ⟨rfl, rfl⟩
    refine ⟨hl.load (by rw [hkeys']; exact hread) ht0, hrefs, hkeys, ?_⟩
    simp only [Fs.modify_icache_self]
    rw [hread]
    rfl

/-- `iunlock` はロックを放すだけである。 -/
theorem iunlock_tracks (ht : Tracks fs₀ fs (some x)) (h : iunlock fs x = .ok fs') :
    Tracks fs₀ fs' none ∧ fs' = fs.modify x fun i => { i with locked := false } := by
  obtain ⟨-, -, rfl⟩ := iunlock_cases h
  exact ⟨ht.unlock, rfl⟩

/-- `iunlockput` は、namex が自分で取った参照を放して directory のロックを放す。 -/
theorem iunlockput_tracks (ht : Tracks fs₀ fs (some x)) (hlt : (fs₀.icache x).ref < (fs.icache x).ref)
    (hd : fs₀.live (fs.icache x).dev = true) (h : iunlockput fs x = .ok fs') :
    Tracks fs₀ fs' none ∧ fs'.refs = fs.refs - Pi.single x 1 ∧ fs'.keys = fs.keys := by
  obtain ⟨hr, hk, -⟩ := iunlockput_spec h
  obtain ⟨fs₁, h₁, h₂⟩ := bind_eq_ok.mp h
  obtain ⟨ht₁, rfl⟩ := iunlock_tracks ht h₁
  exact ⟨(iput_tracks ht₁ (by simpa using hlt) (by simpa using hd) h₂).1, hr, hk⟩

/--
**`dirlookup`。** ロックした読める directory `x` で名前を探す。見つからなければ状態は変わらず、
見つかればその inode を `iget` する。探す dirent の列は disk の dinode のものである。
-/
theorem dirlookup_tracks {name : List Char} {r : Option Nat} (ht : Tracks fs₀ fs (some x))
    (hd : fs₀.live (fs.icache x).dev = true) (h : dirlookup fs x name = .ok (fs', r)) :
    Tracks fs₀ fs' (some x) ∧
      ((findDirent (fs₀.nodeAt (fs.keys x)).dirents name = none ∧ r = none ∧ fs' = fs) ∨
       (∃ de n, findDirent (fs₀.nodeAt (fs.keys x)).dirents name = some de ∧ r = some n ∧
          fs'.keys n = ((fs.icache x).dev, de.inum) ∧ 0 < (fs'.icache n).ref ∧
          fs'.refs = fs.refs + Pi.single n 1 ∧ ∀ y, 0 < (fs.icache y).ref → fs'.keys y = fs.keys y)) := by
  obtain ⟨-, di, hdi, hres⟩ := dirlookup_cases h
  rw [ht.readDinode hd (fun y hy => by cases hy; rfl), Except.ok.injEq] at hdi
  -- 読んだ dinode は `x` の位置の dinode である
  have hdi' : di = fs₀.nodeAt (fs.keys x) := hdi.symm
  rcases hres with ⟨hf, rfl, rfl⟩ | ⟨de, n, hf, rfl, hg⟩
  · exact ⟨ht, .inl ⟨hdi' ▸ hf, rfl, rfl⟩⟩
  · obtain ⟨ht', hrefs, hkn, hkeys⟩ := iget_tracks ht hg
    exact ⟨ht', .inr ⟨de, n, hdi' ▸ hf, rfl, hkn, iget_ref_pos hg, hrefs, hkeys⟩⟩

end Xv6

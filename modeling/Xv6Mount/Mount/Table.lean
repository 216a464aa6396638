import Xv6Mount.Fs.Path
import Xv6Mount.Infra.Linked

/-!
# mount の表と loop device の表（`sysmount.c`・`loopdev.c`）

`gmnt.gmnttable` の entry は番号で指す。active list は `gmnt.pmntlist` から `next` で
たどる片方向リストで、`mountinit` の後は root の entry `gmnttable[0]` だけを持つ。
`sys_mount` は新しい entry を先頭に足す。

active list をたどる loop は三つある（`mntlookup`・`getmntpnt`・`sys_umount` の探索）。
どれも `refcnt == 0` の entry に会うと同じ文言で panic し、条件に合う最初の entry で
止まる。一つの定義 `findMnt` に条件を渡して表す。C の loop は list が循環すれば
終わらない。entry は `NMNT` 個しかないので、`NMNT` 個を越えてたどるのは循環している
ときだけであり、そのとき `findMnt` は `.hang` を返す。

* `findMnt_eq_find?` — list が `LinkedFrom` なら、探索は列の `find?` である
-/

namespace Xv6

open Infra

/-- `struct mntent`。`mnti` は mount point の slot、`next` は active list の次の entry。 -/
structure Mntent where
  devno : Nat
  mnti : Option Nat
  refcnt : Nat
  next : Option Nat
deriving DecidableEq, Repr

/-- `gmnt`。 -/
structure Gmnt where
  gmnttable : Nat → Mntent
  pmntlist : Option Nat
  prootmnt : Option Nat

/-- file system・`gmnt`・`is_loop_mounted` をまとめた kernel の状態。 -/
structure Sys where
  fs : Fs
  gmnt : Gmnt
  is_loop_mounted : Bool

/-- 0 で初期化された entry。 -/
def Mntent.zero : Mntent := ⟨0, none, 0, none⟩

/-- `mountinit`。0 で初期化された `gmnt` の entry 0 を root の entry にして、active list を作る。 -/
def mountinit : Gmnt where
  gmnttable := Function.update (fun _ => Mntent.zero) 0 { Mntent.zero with refcnt := 1 }
  pmntlist := some 0
  prootmnt := some 0

/-- entry `i` を `f` で書き換える。 -/
def Gmnt.modify (g : Gmnt) (i : Nat) (f : Mntent → Mntent) : Gmnt :=
  { g with gmnttable := Function.update g.gmnttable i (f (g.gmnttable i)) }

/-- active list の `next`。 -/
def Gmnt.nxt (g : Gmnt) (i : Nat) : Option Nat := (g.gmnttable i).next

section modify

variable (g : Gmnt) (i : Nat) (f : Mntent → Mntent)

@[simp] theorem Gmnt.modify_self : (g.modify i f).gmnttable i = f (g.gmnttable i) := by
  simp [Gmnt.modify]

@[simp] theorem Gmnt.modify_of_ne {j : Nat} (h : j ≠ i) : (g.modify i f).gmnttable j = g.gmnttable j := by
  simp [Gmnt.modify, h]

@[simp] theorem Gmnt.modify_pmntlist : (g.modify i f).pmntlist = g.pmntlist := rfl

@[simp] theorem Gmnt.modify_prootmnt : (g.modify i f).prootmnt = g.prootmnt := rfl

end modify

/-! ## entry の確保と参照 -/

/-- `mntalloc`。`refcnt == 0` の最初の entry を `refcnt = 2` で返す。 -/
def mntalloc (g : Gmnt) : Except Stop (Gmnt × Nat) :=
  match (List.range NMNT).find? (fun i => (g.gmnttable i).refcnt == 0) with
  | some i => .ok (g.modify i fun e => { e with refcnt := 2 }, i)
  | none => .error (.panic "[mntalloc] no free mount entry")

/-- `mntdup`。 -/
def mntdup (g : Gmnt) (i : Nat) : Gmnt := g.modify i fun e => { e with refcnt := e.refcnt + 1 }

/-- `mntput`。 -/
def mntput (g : Gmnt) (i : Nat) : Gmnt := g.modify i fun e => { e with refcnt := e.refcnt - 1 }

/-! ## active list をたどる -/

/-- active list を `cur` からたどり、`p` を満たす最初の entry を返す。 -/
def findMnt (tbl : Nat → Mntent) (p : Mntent → Bool) : Nat → Option Nat → Except Stop (Option Nat)
  | _, none => .ok none
  | 0, some _ => .error .hang
  | fuel + 1, some cur =>
    if (tbl cur).refcnt = 0 then
      .error (.panic "[mntlookup] mnt entry in active mount list has a zero refcnt")
    else if p (tbl cur) then .ok (some cur)
    else findMnt tbl p fuel (tbl cur).next

/-- `mntlookup`。mount point が slot `ip` の entry を探し、`mntdup` して返す。 -/
def mntlookup (g : Gmnt) (ip : Nat) : Except Stop (Gmnt × Option Nat) := do
  match ← findMnt g.gmnttable (fun e => e.mnti == some ip) NMNT g.pmntlist with
  | some cur => pure (mntdup g cur, some cur)
  | none => pure (g, none)

/-- `getmntpnt`。device `devno` の entry の mount point。 -/
def getmntpnt (g : Gmnt) (devno : Nat) : Except Stop (Option Nat) := do
  match ← findMnt g.gmnttable (fun e => e.devno == devno) NMNT g.pmntlist with
  | some cur => pure (g.gmnttable cur).mnti
  | none => pure none

/--
`sys_umount` の二つ目の loop。entry `m` を指している pointer を返す。`none` は
`&gmnt.pmntlist`、`some p` は `&gmnttable[p].next`。
-/
def findPre (tbl : Nat → Mntent) (m : Nat) : Nat → Option Nat → Option Nat → Except Stop (Option Nat)
  | _, _, none => .error (.panic "[mntlookup] mnt entry is not in active mount list")
  | 0, _, some _ => .error .hang
  | fuel + 1, pre, some cur => if cur = m then .ok pre else findPre tbl m fuel (some cur) (tbl cur).next

/-- `*pre = cur->next`。 -/
def Gmnt.setPre (g : Gmnt) (pre : Option Nat) (v : Option Nat) : Gmnt :=
  match pre with
  | none => { g with pmntlist := v }
  | some p => g.modify p fun e => { e with next := v }

section setPre

variable (g : Gmnt) (pre v : Option Nat) (i : Nat)

/-- pointer の付け替えは `next` しか変えない。 -/
@[simp] theorem Gmnt.setPre_refcnt : ((g.setPre pre v).gmnttable i).refcnt = (g.gmnttable i).refcnt := by
  cases pre with
  | none => rfl
  | some p => by_cases h : i = p <;> simp [Gmnt.setPre, h]

@[simp] theorem Gmnt.setPre_devno : ((g.setPre pre v).gmnttable i).devno = (g.gmnttable i).devno := by
  cases pre with
  | none => rfl
  | some p => by_cases h : i = p <;> simp [Gmnt.setPre, h]

theorem Gmnt.setPre_next_of_ne (h : pre ≠ some i) : (g.setPre pre v).nxt i = g.nxt i := by
  cases pre with
  | none => rfl
  | some p => simp [Gmnt.setPre, Gmnt.nxt, Ne.symm (Option.some_injective _ |>.ne_iff.mp h)]

end setPre

/-! ## loop device -/

/-- `getorcreatedev`。同じ file を持つ使用中の slot があればその番号、なければ空き slot に `idup` して入れる。 -/
def getorcreatedev (fs : Fs) (ip : Nat) : Except Stop (Fs × Nat) :=
  match (List.range NLOOPDEV).find? (fun i => (fs.loopdevtable i).used && (fs.loopdevtable i).ip == some ip) with
  | some i => .ok (fs, i ||| LOOPDEV_MASK)
  | none =>
    match (List.range NLOOPDEV).find? (fun i => !(fs.loopdevtable i).used) with
    | some i =>
      let fs := { fs with loopdevtable := Function.update fs.loopdevtable i ⟨true, some ip⟩ }
      .ok (idup fs ip, i ||| LOOPDEV_MASK)
    | none => .error (.panic "[getorcreatedev] no free loop device")

/-- `devput`。slot を空きにする。`ip` は消さない。 -/
def devput (fs : Fs) (devno : Nat) : Except Stop Fs :=
  if !isloopdev devno then .error (.panic "[devput] devno is not a loop device")
  else
    let i := loopdevnoOf devno
    .ok { fs with loopdevtable := Function.update fs.loopdevtable i { fs.loopdevtable i with used := false } }

/-! ## entry の参照 -/

/-- `mntdup` の後の `mntput` は表を元に戻す。 -/
@[simp] theorem mntput_mntdup (g : Gmnt) (c : Nat) : mntput (mntdup g c) c = g := by
  obtain ⟨tbl, pl, pr⟩ := g
  simp only [mntput, mntdup, Gmnt.modify, Function.update_self, Function.update_idem,
    Nat.add_sub_cancel, Gmnt.mk.injEq, and_true]
  exact Function.update_eq_self c tbl

/-- `mntlookup` は見つけた entry を `mntdup` する。見つからなければ表は変わらない。 -/
theorem mntlookup_cases {g g' : Gmnt} {ip : Nat} {r : Option Nat} (h : mntlookup g ip = .ok (g', r)) :
    findMnt g.gmnttable (fun e => e.mnti == some ip) NMNT g.pmntlist = .ok r ∧
      ((r = none ∧ g' = g) ∨ ∃ c, r = some c ∧ g' = mntdup g c) := by
  unfold mntlookup at h
  obtain ⟨r', hr, h⟩ := bind_eq_ok.mp h
  cases r' with
  | none =>
    obtain ⟨rfl, rfl⟩ : g = g' ∧ none = r := by simpa using h
    exact ⟨hr, .inl ⟨rfl, rfl⟩⟩
  | some c =>
    obtain ⟨rfl, rfl⟩ : mntdup g c = g' ∧ some c = r := by simpa using h
    exact ⟨hr, .inr ⟨c, rfl, rfl⟩⟩

/-- `mntalloc` は `NMNT` 個の中から `refcnt = 0` の entry を選び、`refcnt = 2` にする。 -/
theorem mntalloc_spec {g g' : Gmnt} {e : Nat} (h : mntalloc g = .ok (g', e)) :
    e < NMNT ∧ (g.gmnttable e).refcnt = 0 ∧ g' = g.modify e fun m => { m with refcnt := 2 } := by
  unfold mntalloc at h
  split at h
  · rename_i i hi
    cases h
    have hp := List.find?_some hi
    simp only [beq_iff_eq] at hp
    exact ⟨List.mem_range.mp (List.mem_of_find?_eq_some hi), hp, rfl⟩
  · cases h

/-! ## 探索は列の `find?` である -/

section find

variable {tbl : Nat → Mntent} {p : Mntent → Bool}

/--
**active list の探索。** `cur` から `next` でたどった列 `l` の entry がどれも `refcnt > 0` で、
fuel が列の長さ以上なら、探索の結果は `l` の `find?` である。
-/
theorem findMnt_eq_find? :
    ∀ {cur : Option Nat} {l : List Nat} {fuel : Nat}, LinkedFrom (fun i => (tbl i).next) cur l →
    (∀ i ∈ l, 0 < (tbl i).refcnt) → l.length ≤ fuel →
    findMnt tbl p fuel cur = .ok (l.find? fun i => p (tbl i))
  | _, _, fuel, .nil, _, _ => by cases fuel <;> rfl
  | _, c :: l, fuel, .cons _ h, hr, hf => by
    obtain ⟨fuel, rfl⟩ : ∃ n, fuel = n + 1 := ⟨fuel - 1, by simp at hf; omega⟩
    have hc : (tbl c).refcnt ≠ 0 := Nat.pos_iff_ne_zero.mp (hr c List.mem_cons_self)
    unfold findMnt
    rw [if_neg hc]
    by_cases hp : p (tbl c) = true
    · simp [hp]
    · rw [if_neg hp, List.find?_cons_of_neg (by simpa using hp)]
      exact findMnt_eq_find? h (fun i hi => hr i (List.mem_cons_of_mem c hi)) (by simp at hf; omega)

/-- `findPre` は、列 `l₁ ++ m :: l₂` で `m` の直前の entry（先頭なら `pre`）を返す。 -/
theorem findPre_eq :
    ∀ {cur : Option Nat} (l₁ : List Nat) {m : Nat} {l₂ : List Nat} {pre : Option Nat} {fuel : Nat},
    LinkedFrom (fun i => (tbl i).next) cur (l₁ ++ m :: l₂) → l₁.length < fuel →
    findPre tbl m fuel pre cur = .ok ((pre :: l₁.map some).getLast?.getD pre)
  | _, [], m, l₂, pre, fuel, .cons _ _, hf => by
    obtain ⟨fuel, rfl⟩ : ∃ n, fuel = n + 1 := ⟨fuel - 1, by omega⟩
    simp [findPre]
  | _, x :: l₁, m, l₂, pre, fuel, .cons hx h, hf => by
    obtain ⟨fuel, rfl⟩ : ∃ n, fuel = n + 1 := ⟨fuel - 1, by omega⟩
    -- `x` は列の中で重ならないので、`m` ではない
    have hxm : x ≠ m := fun e => hx (by simp [e])
    unfold findPre
    rw [if_neg hxm, findPre_eq l₁ h (by simp at hf; omega)]
    simp [List.getLast?_cons]

end find

end Xv6

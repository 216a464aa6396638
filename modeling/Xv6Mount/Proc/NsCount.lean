import Xv6Mount.Proc.Pid
import Xv6Mount.Proc.Exit
import Xv6Mount.Infra.Count

/-!
# namespace の参照の数

nsproxy の `count` は、それを指す process のうち `exit` でまだ `put_nsproxy` を通っていない
ものの数である。pid namespace の `count` は、それを指す使用中（`count > 0`）の nsproxy と、
それを `child_pid_namespace` に持つ、まだ `exit` していない process の数である。

`exit` は一つの system call の中で `put_nsproxy` を通って `ZOMBIE` になり、`wait` は `nsproxy` を
残したまま slot を `UNUSED` に戻す。system call の境目で数える process は、`UNUSED` でも
`ZOMBIE` でもない slot（`Proc.alive`）で、残った `nsproxy` は数えない。

* `nsproxyRefs_frame`・`childRefs_frame`・`pidNsUses_frame` — 一つの slot、一つの entry の
  書き換えで、数がその分だけ変わる
* `NsCounts` — 数の等式と、数える参照が表の中を指すこと、`UNUSED` の slot が子の namespace を
  持たないこと
* `fork_refs`・`exit_refs` — system call が参照と表をどう動かすか
* `ProcReach.nsCounts` — 到達できるどの状態も `NsCounts` を満たす
-/

namespace Xv6

open Infra Finset

/-! ## 数える参照 -/

/-- `exit` でまだ `put_nsproxy` を通っていない process。空きの slot と `ZOMBIE` を除く。 -/
def Proc.alive (q : Proc) : Bool := q.state != .UNUSED && q.state != .ZOMBIE

/-- 数える `p->nsproxy`。 -/
def Proc.nsRef (q : Proc) : Option Nat := if q.alive then q.nsproxy else none

/-- 数える `p->child_pid_namespace`。 -/
def Proc.childRef (q : Proc) : Option Nat := if q.alive then q.child_pid_namespace else none

/-- nsproxy `j` を指す process の数。 -/
def nsproxyRefs (s : ProcSys) (j : Nat) : Nat :=
  ((range NPROC).filter fun p => (s.proc p).nsRef = some j).card

/-- pid namespace `i` を子のために持つ process の数。 -/
def childRefs (s : ProcSys) (i : Nat) : Nat :=
  ((range NPROC).filter fun p => (s.proc p).childRef = some i).card

/-- 使用中の nsproxy が pid namespace `i` を指す。 -/
def Nsproxy.Uses (n : Nsproxy) (i : Nat) : Prop := 0 < n.count ∧ n.pid_ns = some i

instance (n : Nsproxy) (i : Nat) : Decidable (n.Uses i) := inferInstanceAs (Decidable (_ ∧ _))

/-- pid namespace `i` を指す、使用中の nsproxy の数。 -/
def pidNsUses (t : NsTables) (i : Nat) : Nat :=
  ((range NNAMESPACE).filter fun j => (t.nsproxy j).Uses i).card

theorem Proc.alive_iff (q : Proc) : q.alive ↔ q.state ≠ .UNUSED ∧ q.state ≠ .ZOMBIE := by
  simp [Proc.alive]

theorem Proc.nsRef_of_alive {q : Proc} (h : q.alive) : q.nsRef = q.nsproxy := if_pos h

theorem Proc.childRef_of_alive {q : Proc} (h : q.alive) : q.childRef = q.child_pid_namespace := if_pos h

theorem Proc.nsRef_of_not_alive {q : Proc} (h : q.alive = false) : q.nsRef = none := by
  simp [Proc.nsRef, h]

theorem Proc.childRef_of_not_alive {q : Proc} (h : q.alive = false) : q.childRef = none := by
  simp [Proc.childRef, h]

@[simp] theorem Proc.zero_nsRef : Proc.zero.nsRef = none := rfl

@[simp] theorem Proc.zero_childRef : Proc.zero.childRef = none := rfl

theorem Proc.alive_of_nsRef_eq_some {q : Proc} {j : Nat} (h : q.nsRef = some j) : q.alive := by
  unfold Proc.nsRef at h
  split at h
  · assumption
  · cases h

theorem nsproxyRefs_eq_zero {s : ProcSys} {j : Nat} :
    nsproxyRefs s j = 0 ↔ ∀ p < NPROC, (s.proc p).nsRef ≠ some j := by
  simp [nsproxyRefs, Finset.card_eq_zero, Finset.filter_eq_empty_iff]

theorem childRefs_eq_zero {s : ProcSys} {i : Nat} :
    childRefs s i = 0 ↔ ∀ p < NPROC, (s.proc p).childRef ≠ some i := by
  simp [childRefs, Finset.card_eq_zero, Finset.filter_eq_empty_iff]

theorem pidNsUses_eq_zero {t : NsTables} {i : Nat} :
    pidNsUses t i = 0 ↔ ∀ j < NNAMESPACE, ¬ (t.nsproxy j).Uses i := by
  simp [pidNsUses, Finset.card_eq_zero, Finset.filter_eq_empty_iff]

/-! ## 一つの slot、一つの entry の書き換え -/

section frame

variable {s s' : ProcSys} {p : Nat}

theorem nsproxyRefs_frame (hp : p < NPROC) (hframe : ∀ q, q ≠ p → (s'.proc q).nsRef = (s.proc q).nsRef)
    (j : Nat) :
    nsproxyRefs s' j + (if (s.proc p).nsRef = some j then 1 else 0) =
      nsproxyRefs s j + (if (s'.proc p).nsRef = some j then 1 else 0) :=
  card_filter_frame (range NPROC) (· = some j) (fun q => (s.proc q).nsRef) (fun q => (s'.proc q).nsRef)
    (mem_range.2 hp) hframe

theorem childRefs_frame (hp : p < NPROC)
    (hframe : ∀ q, q ≠ p → (s'.proc q).childRef = (s.proc q).childRef) (i : Nat) :
    childRefs s' i + (if (s.proc p).childRef = some i then 1 else 0) =
      childRefs s i + (if (s'.proc p).childRef = some i then 1 else 0) :=
  card_filter_frame (range NPROC) (· = some i) (fun q => (s.proc q).childRef)
    (fun q => (s'.proc q).childRef) (mem_range.2 hp) hframe

theorem pidNsUses_frame {t t' : NsTables} {j : Nat} (hj : j < NNAMESPACE)
    (hframe : ∀ k, k ≠ j → t'.nsproxy k = t.nsproxy k) (i : Nat) :
    pidNsUses t' i + (if (t.nsproxy j).Uses i then 1 else 0) =
      pidNsUses t i + (if (t'.nsproxy j).Uses i then 1 else 0) :=
  card_filter_frame (range NNAMESPACE) (fun n : Nsproxy => n.Uses i) t.nsproxy t'.nsproxy
    (mem_range.2 hj) hframe

theorem pidNsUses_congr {t t' : NsTables} (h : t'.nsproxy = t.nsproxy) (i : Nat) :
    pidNsUses t' i = pidNsUses t i := by
  unfold pidNsUses
  rw [h]

theorem nsproxyRefs_congr (h : ∀ q, (s'.proc q).nsRef = (s.proc q).nsRef) (j : Nat) :
    nsproxyRefs s' j = nsproxyRefs s j := by
  unfold nsproxyRefs
  simp only [h]

theorem childRefs_congr (h : ∀ q, (s'.proc q).childRef = (s.proc q).childRef) (i : Nat) :
    childRefs s' i = childRefs s i := by
  unfold childRefs
  simp only [h]

/-- 数える参照の一つが `j` を指せば、`j` を指す process は一つ以上ある。 -/
theorem one_le_nsproxyRefs (hp : p < NPROC) {j : Nat} (h : (s.proc p).nsRef = some j) :
    1 ≤ nsproxyRefs s j :=
  card_pos.2 ⟨p, mem_filter.2 ⟨mem_range.2 hp, h⟩⟩

end frame

/-! ## 表の `count` -/

/-- `count` と nsproxy を変えない表の書き換え。`next_pid` と `is_pid_1_killed` だけを書く。 -/
def NsTables.SameCounts (t t' : NsTables) : Prop :=
  t'.nsproxy = t.nsproxy ∧ ∀ i, (t'.pid_namespaces i).count = (t.pid_namespaces i).count

theorem NsTables.SameCounts.refl (t : NsTables) : t.SameCounts t := ⟨rfl, fun _ => rfl⟩

theorem NsTables.SameCounts.trans {t t' t'' : NsTables} (h₁ : t.SameCounts t') (h₂ : t'.SameCounts t'') :
    t.SameCounts t'' :=
  ⟨h₂.1.trans h₁.1, fun i => (h₂.2 i).trans (h₁.2 i)⟩

theorem NsTables.sameCounts_modifyPidNs (t : NsTables) (i : Nat) {f : PidNamespace → PidNamespace}
    (hf : ∀ n, (f n).count = n.count) : t.SameCounts (t.modifyPidNs i f) := by
  refine ⟨rfl, fun k => ?_⟩
  by_cases hk : k = i
  · subst hk
    simp [hf]
  · simp [hk]

theorem sameCounts_alloc_new_pid (t : NsTables) (i : Nat) : t.SameCounts (alloc_new_pid t i).1 :=
  t.sameCounts_modifyPidNs i fun _ => rfl

theorem remove_from_pid_namespace_count {t t' : NsTables} {i : Nat}
    (h : remove_from_pid_namespace t i = .ok t') :
    t'.nsproxy = t.nsproxy ∧
      ∀ k, (t'.pid_namespaces k).count = (t.pid_namespaces k).count - if k = i then 1 else 0 := by
  unfold remove_from_pid_namespace at h
  split at h
  · cases h
  · cases h
    refine ⟨rfl, fun k => ?_⟩
    by_cases hk : k = i
    · subst hk
      simp
    · simp [hk]

theorem create_new_pid_namespace_count {t t' : NsTables} {parent : Option Nat} {c : Nat}
    (h : create_new_pid_namespace t parent = .ok (t', c)) :
    t'.nsproxy = t.nsproxy ∧
      ∀ k, (t'.pid_namespaces k).count = (t.pid_namespaces k).count + if k = c then 1 else 0 := by
  obtain ⟨-, hc, -, -⟩ := create_new_pid_namespace_spec h
  unfold create_new_pid_namespace at h
  split at h
  · cases h
    refine ⟨rfl, fun k => ?_⟩
    by_cases hk : k = c
    · subst hk
      simp [hc]
    · simp [hk]
  · cases h

/--
`create_nsproxy` は空きの nsproxy `j` を `count = 1` で作り、pid namespace `i` を指させて `i` の
`count` を一つ増やす。`i` は与えられた namespace か、与えられなければ新しく作った namespace である。
-/
theorem create_nsproxy_count {t t' : NsTables} {pns : Option Nat} {j : Nat}
    (h : create_nsproxy t pns = .ok (t', j)) :
    j < NNAMESPACE ∧ (t.nsproxy j).count = 0 ∧
      ∃ i, (pns = some i ∨ pns = none ∧ i < NNAMESPACE) ∧
        t'.nsproxy = Function.update t.nsproxy j ⟨1, some i⟩ ∧
        ∀ k, (t'.pid_namespaces k).count = (t.pid_namespaces k).count + if k = i then 1 else 0 := by
  unfold create_nsproxy at h
  split at h
  · rename_i j₀ hj₀
    have hfree := List.find?_some hj₀
    simp only [beq_iff_eq] at hfree
    have hlt := List.mem_range.mp (List.mem_of_find?_eq_some hj₀)
    dsimp only at h
    cases pns with
    | none =>
      obtain ⟨⟨t₁, i⟩, h₁, h⟩ := bind_eq_ok.mp h
      cases h
      obtain ⟨hi, -, -, -⟩ := create_new_pid_namespace_spec h₁
      obtain ⟨hn, hc⟩ := create_new_pid_namespace_count h₁
      exact ⟨hlt, hfree, i, .inr ⟨rfl, hi⟩, by rw [hn], hc⟩
    | some p =>
      cases h
      refine ⟨hlt, hfree, p, .inl rfl, rfl, fun k => ?_⟩
      by_cases hk : k = p
      · subst hk
        simp [increase_pid_namespace_count]
      · simp [increase_pid_namespace_count, hk]
  · cases h

/--
`put_nsproxy` は nsproxy `j` の `count` を一つ減らす。0 になれば `pid_ns` を null にして、指していた
pid namespace の `count` を一つ減らす。
-/
theorem put_nsproxy_count {t t' : NsTables} {j : Nat} (h : put_nsproxy t j = .ok t') :
    t'.nsproxy = Function.update t.nsproxy j
      ⟨(t.nsproxy j).count - 1, if (t.nsproxy j).count - 1 = 0 then none else (t.nsproxy j).pid_ns⟩ ∧
    ∀ i, (t'.pid_namespaces i).count = (t.pid_namespaces i).count -
      if (t.nsproxy j).count - 1 = 0 ∧ (t.nsproxy j).pid_ns = some i then 1 else 0 := by
  unfold put_nsproxy at h
  simp only at h
  split at h
  · rename_i h0
    simp only [NsTables.modifyNsproxy_self] at h0
    split at h
    · rename_i i hi
      simp only [NsTables.modifyNsproxy_self] at hi
      obtain ⟨t₁, h₁, h⟩ := bind_eq_ok.mp h
      cases h
      obtain ⟨hn, hc⟩ := remove_from_pid_namespace_count h₁
      refine ⟨?_, fun k => ?_⟩
      · funext k
        by_cases hk : k = j
        · subst hk
          simp [hn, h0, hi]
        · simp [hn, hk]
      · simp [hc, h0, hi, eq_comm]
    · cases h
  · rename_i h0
    simp only [NsTables.modifyNsproxy_self] at h0
    cases h
    refine ⟨?_, fun k => by simp [h0]⟩
    funext k
    by_cases hk : k = j
    · subst hk
      simp [h0]
    · simp [hk]

/-- 放した後も使用中の nsproxy は、同じ pid namespace を指す。 -/
theorem put_nsproxy_pid_ns_of_pos {t t' : NsTables} {j : Nat} (h : put_nsproxy t j = .ok t')
    (hc : 0 < (t'.nsproxy j).count) : (t'.nsproxy j).pid_ns = (t.nsproxy j).pid_ns := by
  obtain ⟨hn, -⟩ := put_nsproxy_count h
  rw [hn, Function.update_self] at hc ⊢
  have h1 : (t.nsproxy j).count - 1 ≠ 0 := by simp at hc; omega
  simp [h1]

/--
nsproxy `j` の `count` が `d` 動き、ほかの nsproxy は変わらない表の書き換え。pid namespace の
`count` は、nsproxy `j` が使用中に指す先が変わった分だけ動く。
-/
structure NsTables.Moved (t t' : NsTables) (j : Nat) (d : Int) : Prop where
  frame : ∀ k, k ≠ j → t'.nsproxy k = t.nsproxy k
  count : (t'.nsproxy j).count = (t.nsproxy j).count + d
  balance : ∀ i, (t'.pid_namespaces i).count + (if (t.nsproxy j).Uses i then 1 else 0) =
    (t.pid_namespaces i).count + (if (t'.nsproxy j).Uses i then 1 else 0)

namespace NsTables.Moved

variable {t t' t'' : NsTables} {j : Nat}

theorem sameCounts {d : Int} (h : t.Moved t' j d) (h' : t'.SameCounts t'') : t.Moved t'' j d where
  frame k hk := by rw [h'.1, h.frame k hk]
  count := by rw [h'.1, h.count]
  balance i := by rw [h'.2 i, h'.1, h.balance i]

/-- 各 nsproxy の `count` の動き：`j` だけが `d` 動く。 -/
theorem count_eq {d : Int} (h : t.Moved t' j d) (k : Nat) :
    ((t'.nsproxy k).count : Int) = (t.nsproxy k).count + if k = j then d else 0 := by
  by_cases hk : k = j
  · subst hk
    rw [h.count, if_pos rfl]
  · rw [h.frame k hk, if_neg hk]
    omega

/-- 空きの nsproxy を作る `create_nsproxy`。 -/
theorem of_create {pns : Option Nat} (h : create_nsproxy t pns = .ok (t', j)) : t.Moved t' j 1 := by
  obtain ⟨-, h0, i, -, hn, hc⟩ := create_nsproxy_count h
  refine ⟨fun k hk => by rw [hn, Function.update_of_ne hk], by simp [hn, h0], fun k => ?_⟩
  simp only [hn, Function.update_self, hc, Nsproxy.Uses, h0]
  by_cases hk : k = i
  · simp [hk]
  · simp [hk, Ne.symm hk]

/-- 使用中の nsproxy の `count` を増やす `get_nsproxy`。 -/
theorem get (t : NsTables) (j : Nat) (hc : 0 < (t.nsproxy j).count) : t.Moved (get_nsproxy t j) j 1 where
  frame k hk := by simp [get_nsproxy, hk]
  count := by simp [get_nsproxy]
  balance i := by
    have hc' : 0 < (t.nsproxy j).count + 1 := by omega
    simp [get_nsproxy, Nsproxy.Uses, hc, hc']

/-- 使用中の nsproxy を放す `put_nsproxy`。 -/
theorem of_put (h : put_nsproxy t j = .ok t') (hc : 0 < (t.nsproxy j).count) : t.Moved t' j (-1) := by
  obtain ⟨hn, hp⟩ := put_nsproxy_count h
  refine ⟨fun k hk => by rw [hn, Function.update_of_ne hk], by simp [hn]; omega, fun i => ?_⟩
  simp only [hn, Function.update_self, hp, Nsproxy.Uses]
  -- 最後の参照なら `pid_ns` が null になり、その pid namespace の `count` が一つ減る
  by_cases h1 : (t.nsproxy j).count - 1 = 0
  · by_cases hi : (t.nsproxy j).pid_ns = some i <;> simp [h1, hi, hc]
  · have h1' : 1 < (t.nsproxy j).count := by omega
    simp [h1, h1', hc]

end NsTables.Moved

/-! ## 参照を保つ slot の書き換え -/

/-- 数える参照を変えず、`UNUSED` の slot が子の namespace を持たないことを保つ slot の書き換え。 -/
structure Proc.Keeps (q q' : Proc) : Prop where
  nsRef : q'.nsRef = q.nsRef
  childRef : q'.childRef = q.childRef
  unused_child : (q.state = .UNUSED → q.child_pid_namespace = none) →
    q'.state = .UNUSED → q'.child_pid_namespace = none

namespace Proc.Keeps

theorem refl (q : Proc) : q.Keeps q := ⟨rfl, rfl, id⟩

theorem trans {q q' q'' : Proc} (h₁ : q.Keeps q') (h₂ : q'.Keeps q'') : q.Keeps q'' :=
  ⟨h₂.nsRef.trans h₁.nsRef, h₂.childRef.trans h₁.childRef, fun hu => h₂.unused_child (h₁.unused_child hu)⟩

/-- 生死と空きを変えず、`nsproxy` と `child_pid_namespace` を変えない書き換え。 -/
theorem of_fields {q q' : Proc} (ha : q'.alive = q.alive) (hn : q'.nsproxy = q.nsproxy)
    (hc : q'.child_pid_namespace = q.child_pid_namespace) (hu : q'.state = .UNUSED → q.state = .UNUSED) :
    q.Keeps q' where
  nsRef := by simp only [Proc.nsRef, ha, hn]
  childRef := by simp only [Proc.childRef, ha, hc]
  unused_child h hu' := hc ▸ h (hu hu')

/-- `state` だけを書く、生きた process から生きた process への書き換え。 -/
theorem of_state {q q' : Proc} (ha : q.alive) (ha' : q'.alive) (hn : q'.nsproxy = q.nsproxy)
    (hc : q'.child_pid_namespace = q.child_pid_namespace) : q.Keeps q' :=
  of_fields (by rw [ha, ha']) hn hc fun hu => absurd hu ((Proc.alive_iff q').1 ha').1

end Proc.Keeps

section keeps

variable (s : ProcSys)

theorem keeps_modify {p : Nat} {f : Proc → Proc} (hf : (s.proc p).Keeps (f (s.proc p))) (q : Nat) :
    (s.proc q).Keeps ((s.modify p f).proc q) := by
  by_cases hq : q = p
  · subst hq
    rw [ProcSys.modify_self]
    exact hf
  · rw [ProcSys.modify_of_ne _ _ _ hq]
    exact .refl _

theorem keeps_kill_process (q : Proc) (np : Option Nat) : q.Keeps (kill_process q np) := by
  refine .of_fields ?_ rfl rfl ?_
  · by_cases h : q.state = .SLEEPING
    · simp only [kill_process, Proc.alive, h, if_true]
      rfl
    · simp [kill_process, Proc.alive, h]
  · by_cases h : q.state = .SLEEPING <;> simp [kill_process, h]

theorem keeps_wakeup1 (chan : Option Nat) (q : Nat) : (s.proc q).Keeps ((wakeup1 s chan).proc q) := by
  unfold wakeup1
  split
  · split
    · rename_i hs
      exact keeps_modify s (.of_state (by simp [Proc.alive, hs]) (by simp [Proc.alive]) rfl rfl) q
    · exact .refl _
  · exact .refl _

theorem keeps_killNamespace (cur : Nat) (ns : Option Nat) (q : Nat) :
    (s.proc q).Keeps ((killNamespace s cur ns).proc q) := by
  rcases killNamespace_proc s cur ns q with ⟨-, -, h⟩ | ⟨-, -, -, -, h⟩
  · rw [h]
    exact .refl _
  · rw [h]
    exact keeps_kill_process _ _

theorem keeps_reparent (cur : Nat) (reaper : Option Nat) (q : Nat) :
    (s.proc q).Keeps ((reparent s cur reaper).proc q) := by
  unfold reparent
  refine List.foldlRecOn (motive := fun t : ProcSys => (s.proc q).Keeps (t.proc q)) _ _ (.refl _)
    fun t ht p _ => ?_
  dsimp only
  -- 親を替えるだけの書き換えの後、`ZOMBIE` の子があれば `initproc` を起こす
  have hm : (s.proc q).Keeps ((t.modify p fun x => { x with parent := reaper }).proc q) :=
    ht.trans (keeps_modify t (.of_fields rfl rfl rfl id) q)
  split
  · split
    · exact hm.trans (keeps_wakeup1 _ _ q)
    · exact hm
  · exact ht

end keeps

/-! ## 不変条件 -/

/--
namespace の参照の数が正確であること。nsproxy と pid namespace の `count` は数える参照の数に
等しい。数える参照と、使用中の nsproxy の `pid_ns` は表の中を指す。`UNUSED` の slot は子の
namespace を持たない（`fork` は空きの slot の `child_pid_namespace` をそのまま子に渡す）。
-/
structure NsCounts (s : ProcSys) : Prop where
  nsproxy_count : ∀ j < NNAMESPACE, (s.ns.nsproxy j).count = nsproxyRefs s j
  pid_ns_count : ∀ i < NNAMESPACE,
    (s.ns.pid_namespaces i).count = pidNsUses s.ns i + childRefs s i
  nsRef_lt : ∀ p j, (s.proc p).nsRef = some j → j < NNAMESPACE
  childRef_lt : ∀ p i, (s.proc p).childRef = some i → i < NNAMESPACE
  pid_ns_lt : ∀ j < NNAMESPACE, 0 < (s.ns.nsproxy j).count →
    ∃ i, (s.ns.nsproxy j).pid_ns = some i ∧ i < NNAMESPACE
  unused_child : ∀ p, (s.proc p).state = .UNUSED → (s.proc p).child_pid_namespace = none

namespace NsCounts

variable {s s' : ProcSys}

theorem zero : NsCounts ProcSys.zero where
  nsproxy_count j _ := by simp [nsproxyRefs, ProcSys.zero, NsTables.zero]
  pid_ns_count i _ := by simp [pidNsUses, childRefs, ProcSys.zero, NsTables.zero, Nsproxy.Uses]
  nsRef_lt p j h := by simp [ProcSys.zero] at h
  childRef_lt p i h := by simp [ProcSys.zero] at h
  pid_ns_lt j _ h := by simp [ProcSys.zero, NsTables.zero] at h
  unused_child _ _ := rfl

/-- 生きた process が指す nsproxy は使用中である。 -/
theorem count_pos (h : NsCounts s) {p j : Nat} (hp : p < NPROC) (hj : (s.proc p).nsRef = some j) :
    0 < (s.ns.nsproxy j).count := by
  have h1 := one_le_nsproxyRefs hp hj
  rw [h.nsproxy_count j (h.nsRef_lt p j hj)]
  omega

/-- どの slot の参照も変わらず、表の `count` も変わらない。 -/
theorem of_keeps (h : NsCounts s) (hk : ∀ q, (s.proc q).Keeps (s'.proc q)) (ht : s.ns.SameCounts s'.ns) :
    NsCounts s' where
  nsproxy_count j hj := by
    rw [ht.1, nsproxyRefs_congr fun q => (hk q).nsRef]
    exact h.nsproxy_count j hj
  pid_ns_count i hi := by
    rw [ht.2 i, pidNsUses_congr ht.1, childRefs_congr fun q => (hk q).childRef]
    exact h.pid_ns_count i hi
  nsRef_lt p j hp := h.nsRef_lt p j ((hk p).nsRef ▸ hp)
  childRef_lt p i hp := h.childRef_lt p i ((hk p).childRef ▸ hp)
  pid_ns_lt j hj hc := by
    rw [ht.1] at hc ⊢
    exact h.pid_ns_lt j hj hc
  unused_child p := (hk p).unused_child (h.unused_child p)

/-- `p₀` のほかの slot が参照を保つとき、process ごとの三つの欄は `p₀` で確かめればよい。 -/
theorem procs_of_one (h : NsCounts s) {p₀ : Nat} (hother : ∀ q, q ≠ p₀ → (s.proc q).Keeps (s'.proc q))
    (hn : ∀ j, (s'.proc p₀).nsRef = some j → j < NNAMESPACE)
    (hc : ∀ i, (s'.proc p₀).childRef = some i → i < NNAMESPACE)
    (hu : (s'.proc p₀).state = .UNUSED → (s'.proc p₀).child_pid_namespace = none) :
    (∀ p j, (s'.proc p).nsRef = some j → j < NNAMESPACE) ∧
    (∀ p i, (s'.proc p).childRef = some i → i < NNAMESPACE) ∧
    (∀ p, (s'.proc p).state = .UNUSED → (s'.proc p).child_pid_namespace = none) := by
  refine ⟨fun p j hp => ?_, fun p i hp => ?_, fun p hp => ?_⟩
  · by_cases hq : p = p₀
    · subst hq
      exact hn j hp
    · exact h.nsRef_lt p j ((hother p hq).nsRef ▸ hp)
  · by_cases hq : p = p₀
    · subst hq
      exact hc i hp
    · exact h.childRef_lt p i ((hother p hq).childRef ▸ hp)
  · by_cases hq : p = p₀
    · subst hq
      exact hu hp
    · exact (hother p hq).unused_child (h.unused_child p) hp

theorem kill (h : NsCounts s) (cur : Nat) (pid : Int) : NsCounts (kill s cur pid).1 := by
  unfold Xv6.kill
  dsimp only
  split
  · show NsCounts (s.modify _ fun q => kill_process q q.parent)
    exact h.of_keeps (keeps_modify s (keeps_kill_process _ _)) (.refl _)
  · exact h

/-- `wait` は `ZOMBIE` の子を空きに戻すか、呼んだ生きた process を sleep させる。 -/
theorem wait (h : NsCounts s) {cur : Nat} (hcur : (s.proc cur).alive) : NsCounts (wait s cur).1 := by
  unfold Xv6.wait
  dsimp only
  split
  · rename_i p hp
    have hz : (s.proc p).state = .ZOMBIE := by simpa using List.find?_some hp
    -- `ZOMBIE` も `UNUSED` も数えないので、残った `nsproxy` は数に入らない
    have hk : (s.proc p).Keeps (Proc.reap (s.proc p)) :=
      ⟨by simp [Proc.nsRef, Proc.alive, Proc.reap, hz], by simp [Proc.childRef, Proc.alive, Proc.reap, hz],
        fun _ _ => rfl⟩
    exact h.of_keeps (keeps_modify s hk) (.refl _)
  · split
    · exact h
    · show NsCounts (s.modify cur fun q => { q with state := .SLEEPING })
      exact h.of_keeps (keeps_modify s (.of_state hcur (by simp [Proc.alive]) rfl rfl)) (.refl _)

end NsCounts

/-! ## `fork` が動かす参照 -/

section fork

variable {s s' : ProcSys}

/-- `allocproc` は取った slot の `state` と `pid` しか書かない。 -/
theorem allocproc_frame {np : Nat} (h : allocproc s = some (s', np)) :
    (∀ q, q ≠ np → s'.proc q = s.proc q) ∧ (s'.proc np).nsproxy = (s.proc np).nsproxy := by
  unfold allocproc at h
  split at h
  · cases h
    exact ⟨fun q hq => by simp [hq], by simp⟩
  · cases h

/--
子の namespace の用意は、子の `nsproxy` を `j` にする。親が子の namespace `c` を持っていれば `c` を
指す nsproxy `j` を作り、そうでなければ親の nsproxy `j` を共有する。
-/
theorem set_up_child_pid_namespace_refs {cur np : Nat} {c : Option Nat}
    (h : set_up_child_pid_namespace s cur np = .ok (s', c)) :
    ∃ j, (∀ q, q ≠ np → s'.proc q = s.proc q) ∧ s'.proc np = { s.proc np with nsproxy := some j } ∧
      ((∃ c₀, (s.proc cur).child_pid_namespace = some c₀ ∧
          create_nsproxy s.ns (some c₀) = .ok (s'.ns, j)) ∨
        ((s.proc cur).child_pid_namespace = none ∧ (s.proc cur).nsproxy = some j ∧
          s'.ns = get_nsproxy s.ns j)) := by
  unfold set_up_child_pid_namespace at h
  split at h
  · rename_i c₀ hc
    obtain ⟨⟨t, j⟩, ht, h⟩ := bind_eq_ok.mp h
    cases h
    exact ⟨j, fun q hq => by simp [hq], by simp, .inl ⟨c₀, hc, ht⟩⟩
  · rename_i hc
    split at h
    · rename_i j hj
      cases h
      exact ⟨j, fun q hq => by simp [hq], by simp, .inr ⟨hc, hj, rfl⟩⟩
    · cases h

/-- `set_up_pids` の loop は子の `pids` と namespace の `next_pid` しか書かない。 -/
theorem setUpPidsLoop_refs {np : Nat} :
    ∀ {k i : Nat} {ns : Option Nat} {s s' : ProcSys}, setUpPidsLoop np k i ns s = .ok s' →
    (∀ q, q ≠ np → s'.proc q = s.proc q) ∧ (s'.proc np).state = (s.proc np).state ∧
      (s'.proc np).nsproxy = (s.proc np).nsproxy ∧
      (s'.proc np).child_pid_namespace = (s.proc np).child_pid_namespace ∧ s.ns.SameCounts s'.ns
  | k, _, none, _, _, h => by cases k <;> simp [setUpPidsLoop] at h
  | 0, _, some _, _, _, h => by simp [setUpPidsLoop] at h
  | k + 1, i, some ns, s, s', h => by
    simp only [setUpPidsLoop] at h
    split at h
    · cases h
      exact ⟨fun q hq => by simp [hq], by simp, by simp, by simp, sameCounts_alloc_new_pid _ _⟩
    · obtain ⟨hfr, hst, hnsp, hch, hsame⟩ := setUpPidsLoop_refs h
      refine ⟨fun q hq => by simp [hfr q hq, hq], by simp [hst], by simp [hnsp], by simp [hch],
        (sameCounts_alloc_new_pid _ _).trans hsame⟩

/--
**`fork` が動かす参照。** slot がなければ何も変えない。あれば空きの slot `np` だけが変わり、
`np` は `RUNNABLE` で nsproxy `j` を指し、`child_pid_namespace` は空きの slot のままである。
表は、親が子の namespace `c` を持っていれば `c` を指す nsproxy `j` を作り、そうでなければ
親の nsproxy `j` の `count` を一つ増やす。ほかは `next_pid` しか変わらない。
-/
theorem fork_refs {cur : Nat} {r : Int} (h : fork s cur = .ok (s', r)) :
    s' = s ∨ ∃ np j, np < NPROC ∧ (s.proc np).state = .UNUSED ∧ (∀ q, q ≠ np → s'.proc q = s.proc q) ∧
      (s'.proc np).state = .RUNNABLE ∧ (s'.proc np).nsproxy = some j ∧
      (s'.proc np).child_pid_namespace = (s.proc np).child_pid_namespace ∧
      ((∃ c t, (s.proc cur).child_pid_namespace = some c ∧ create_nsproxy s.ns (some c) = .ok (t, j) ∧
          t.SameCounts s'.ns) ∨
        ((s.proc cur).child_pid_namespace = none ∧ (s.proc cur).nsproxy = some j ∧
          (get_nsproxy s.ns j).SameCounts s'.ns)) := by
  unfold fork at h
  cases ha : allocproc s with
  | none =>
    simp only [ha, pure_eq_ok, Except.ok.injEq, Prod.mk.injEq] at h
    exact .inl h.1.symm
  | some a =>
    obtain ⟨s₁, np⟩ := a
    simp only [ha] at h
    obtain ⟨hnp, hun, hns₁, hch₁⟩ := allocproc_spec ha
    obtain ⟨hfr₁, hnsp₁⟩ := allocproc_frame ha
    obtain ⟨⟨s₂, c⟩, h₂, h⟩ := bind_eq_ok.mp h
    obtain ⟨j, hfr₂, hnp₂, htab⟩ := set_up_child_pid_namespace_refs h₂
    obtain ⟨s₃, h₃, h⟩ := bind_eq_ok.mp h
    obtain ⟨hfr₃, hst₃, hnsp₃, hch₃, hsame⟩ := setUpPidsLoop_refs h₃
    cases h
    -- 親の欄は `allocproc` と子の `parent` の書き換えの後も元のままである
    have hcur : ((s₁.modify np fun q => { q with parent := some cur }).proc cur).child_pid_namespace =
        (s.proc cur).child_pid_namespace ∧
        ((s₁.modify np fun q => { q with parent := some cur }).proc cur).nsproxy = (s.proc cur).nsproxy := by
      by_cases hc : cur = np
      · subst hc
        simp [hch₁, hnsp₁]
      · simp [hc, hfr₁ cur hc]
    refine .inr ⟨np, j, hnp, hun, fun q hq => ?_, by simp, ?_, ?_, ?_⟩
    · simp [hq, hfr₃ q hq, hfr₂ q hq, hfr₁ q hq]
    · simp [hnsp₃, hnp₂]
    · simp [hch₃, hnp₂, hch₁]
    · rcases htab with ⟨c₀, hc₀, hcr⟩ | ⟨hc₀, hj, hget⟩
      · refine .inl ⟨c₀, s₂.ns, hcur.1 ▸ hc₀, ?_, by simpa using hsame⟩
        simpa [hns₁] using hcr
      · refine .inr ⟨hcur.1 ▸ hc₀, hcur.2 ▸ hj, ?_⟩
        have h₂ns : s₂.ns = get_nsproxy s.ns j := by simpa [hns₁] using hget
        simpa [h₂ns] using hsame

end fork

/-! ## `exit` が動かす参照 -/

section exit

variable {s s' : ProcSys} {cur : Nat} {st : Int}

/-- `killNamespace` は表を変えない。 -/
theorem killNamespace_ns (s : ProcSys) (cur : Nat) (ns : Option Nat) : (killNamespace s cur ns).ns = s.ns := by
  rcases killNamespace_proc s cur ns 0 with ⟨h, -⟩ | ⟨h, -⟩ <;> exact h

/--
`exit` の前半（nsproxy を放し、親を起こし、pid 1 なら namespace を kill し、そうでなければ子を渡す）の
後で、どの slot の参照も変わらず、`cur` の子の namespace の欄も変わらない。表の `count` は
`put_nsproxy` の後のままである。
-/
theorem exit_head_refs {ns : Nat} {t : NsTables} {s₂ s₃ : ProcSys}
    (hs₂ : s₂ = wakeup1 { s.modify cur (fun q => { q with exit_state := st }) with ns := t } (s.proc cur).parent)
    (hbr : ((s.proc cur).pid = 1 ∧ s₃ = { killNamespace s₂ cur (some ns) with
          ns := (killNamespace s₂ cur (some ns)).ns.modifyPidNs ns fun n => { n with is_pid_1_killed := true } }) ∨
        ((s.proc cur).pid ≠ 1 ∧
          s₃ = reparent s₂ cur (findPid1 (s.modify cur fun q => { q with exit_state := st }) (some ns)))) :
    (∀ q, (s.proc q).Keeps (s₃.proc q)) ∧
      (s₃.proc cur).child_pid_namespace = (s.proc cur).child_pid_namespace ∧ t.SameCounts s₃.ns := by
  have hk₂ : ∀ q, (s.proc q).Keeps (s₂.proc q) := fun q => by
    have hw := keeps_wakeup1 { s.modify cur (fun q => { q with exit_state := st }) with ns := t }
      (s.proc cur).parent q
    have hm : (s.proc q).Keeps ((s.modify cur fun q => { q with exit_state := st }).proc q) :=
      keeps_modify s (.of_fields rfl rfl rfl id) q
    rw [hs₂]
    exact hm.trans hw
  have hc₂ : (s₂.proc cur).child_pid_namespace = (s.proc cur).child_pid_namespace := by
    obtain ⟨_, hw⟩ := wakeup1_proc { s.modify cur (fun q => { q with exit_state := st }) with ns := t }
      (s.proc cur).parent cur
    rw [hs₂, hw]
    simp
  have hns₂ : s₂.ns = t := by rw [hs₂, wakeup1_ns]
  rcases hbr with ⟨-, hs₃⟩ | ⟨-, hs₃⟩
  · -- pid 1：`cur` 以外の同じ namespace の slot を kill して、`is_pid_1_killed` を立てる
    have hp₃ : s₃.proc = (killNamespace s₂ cur (some ns)).proc := by rw [hs₃]
    refine ⟨fun q => hp₃ ▸ (hk₂ q).trans (keeps_killNamespace s₂ cur _ q), ?_, ?_⟩
    · rcases killNamespace_proc s₂ cur (some ns) cur with ⟨-, -, hp⟩ | ⟨-, -, hne, -⟩
      · rw [hp₃, hp, hc₂]
      · exact absurd rfl hne
    · rw [hs₃, killNamespace_ns s₂ cur (some ns), ← hns₂]
      exact NsTables.sameCounts_modifyPidNs _ _ fun _ => rfl
  · -- pid 1 でない：子を渡す
    refine ⟨fun q => hs₃ ▸ (hk₂ q).trans (keeps_reparent s₂ cur _ q), ?_, ?_⟩
    · obtain ⟨-, -, _, _, hp⟩ := reparent_proc s₂ cur
        (findPid1 (s.modify cur fun q => { q with exit_state := st }) (some ns)) cur
      rw [hs₃, hp]
      exact hc₂
    · obtain ⟨hns, -, -⟩ := reparent_proc s₂ cur
        (findPid1 (s.modify cur fun q => { q with exit_state := st }) (some ns)) cur
      rw [hs₃, hns, hns₂]
      exact .refl _

/--
**`exit` が動かす参照。** 呼んだ process `cur` は `ZOMBIE` になり、ほかの slot の参照は変わらない。
表は `cur` の nsproxy `j` を放し（`put_nsproxy`）、`cur` の子の namespace があればその `count` を
一つ減らす。
-/
theorem exit_refs (h : exit s cur st = .ok s') :
    ∃ j t, (s.proc cur).nsproxy = some j ∧ put_nsproxy s.ns j = .ok t ∧
      (∀ q, q ≠ cur → (s.proc q).Keeps (s'.proc q)) ∧ (s'.proc cur).state = .ZOMBIE ∧
      s'.ns.nsproxy = t.nsproxy ∧
      ∀ i, (s'.ns.pid_namespaces i).count = (t.pid_namespaces i).count -
        if (s.proc cur).child_pid_namespace = some i then 1 else 0 := by
  obtain ⟨ns, j, t, s₂, s₃, s₄, -, -, hj, ht, hs₂, hbr, hcp, hs'⟩ := exit_cases h
  obtain ⟨hk₃, hc₃, hsame⟩ := exit_head_refs hs₂ hbr
  refine ⟨j, t, hj, ht, fun q hq => exit_tail_proc hcp hs' hq ▸ hk₃ q, by rw [hs']; simp, ?_⟩
  have hns' : s'.ns = s₄.ns := by rw [hs']; rfl
  -- 子の namespace があれば、その `count` を一つ減らす
  rcases hcp with ⟨c, u, hc, hu, rfl⟩ | ⟨hc, rfl⟩
  · obtain ⟨hun, huc⟩ := remove_from_pid_namespace_count hu
    refine ⟨by rw [hns', hun, hsame.1], fun i => ?_⟩
    rw [hns', huc i, hsame.2 i, ← hc₃, hc]
    by_cases hi : i = c
    · simp [hi]
    · simp [hi, Ne.symm hi]
  · refine ⟨by rw [hns', hsame.1], fun i => ?_⟩
    rw [hns', hsame.2 i, ← hc₃, hc]
    simp

end exit

/-! ## `userinit` が作る参照 -/

/--
`userinit` は空きの slot `p` を `RUNNABLE` の init process にし、新しい root の pid namespace を指す
nsproxy `j` を持たせる。ほかの slot は 0 のままである。
-/
theorem userinit_refs {s : ProcSys} (h : userinit ProcSys.zero = .ok s) :
    ∃ p j t, p < NPROC ∧ (∀ q, q ≠ p → s.proc q = Proc.zero) ∧ (s.proc p).state = .RUNNABLE ∧
      (s.proc p).nsproxy = some j ∧ (s.proc p).child_pid_namespace = none ∧
      create_nsproxy NsTables.zero none = .ok (t, j) ∧ t.SameCounts s.ns := by
  unfold userinit at h
  split at h
  · rename_i s₁ p ha
    obtain ⟨hp, -, hns₁, hch₁⟩ := allocproc_spec ha
    obtain ⟨hfr₁, -⟩ := allocproc_frame ha
    obtain ⟨⟨t, j⟩, ht, h⟩ := bind_eq_ok.mp h
    simp only at h
    split at h
    · rename_i ns _
      simp only [pure_eq_ok, Except.ok.injEq] at h
      subst h
      refine ⟨p, j, t, hp, fun q hq => by simp [hq, hfr₁ q hq, ProcSys.zero], by simp, by simp, ?_, ?_,
        sameCounts_alloc_new_pid _ _⟩
      · simpa [ProcSys.zero, Proc.zero] using hch₁ p
      · simpa [hns₁, ProcSys.zero] using ht
    · simp at h
  · simp at h

/-! ## system call ごとの保存 -/

namespace NsCounts

variable {s s' : ProcSys}

/--
空きの slot `np` が nsproxy `j` を指す process になり、ほかの slot の参照は変わらない。表は
nsproxy `j` の `count` を一つ増やし、`j` は表の中の pid namespace を指す。
-/
theorem attach (h : NsCounts s) {np j : Nat} (hnp : np < NPROC) (hun : (s.proc np).state = .UNUSED)
    (hother : ∀ q, q ≠ np → (s.proc q).Keeps (s'.proc q)) (hnew : (s'.proc np).nsRef = some j)
    (hchild : (s'.proc np).child_pid_namespace = (s.proc np).child_pid_namespace)
    (hj : j < NNAMESPACE) (ht : s.ns.Moved s'.ns j 1)
    (hpid : ∃ i, (s'.ns.nsproxy j).pid_ns = some i ∧ i < NNAMESPACE) : NsCounts s' := by
  have hdead : (s.proc np).alive = false := by simp [Proc.alive, hun]
  have halive := Proc.alive_of_nsRef_eq_some hnew
  -- `np` の参照は、nsproxy が `none` から `j` へ、子の namespace は `none` のまま
  have hold : (s.proc np).nsRef = none := Proc.nsRef_of_not_alive hdead
  have hold' : (s.proc np).childRef = none := Proc.childRef_of_not_alive hdead
  have hnew' : (s'.proc np).childRef = none := by
    rw [Proc.childRef_of_alive halive, hchild, h.unused_child np hun]
  have hrefs := nsproxyRefs_frame hnp fun q hq => (hother q hq).nsRef
  have hchildren := childRefs_frame hnp fun q hq => (hother q hq).childRef
  obtain ⟨hnl, hcl, hul⟩ := h.procs_of_one hother
    (fun k hk => by
      rw [hnew] at hk
      cases hk
      exact hj)
    (fun i hi => by
      rw [hnew'] at hi
      cases hi)
    fun hp => absurd hp ((Proc.alive_iff _).1 halive).1
  refine ⟨fun k hk => ?_, fun i hi => ?_, hnl, hcl, fun k hk hc => ?_, hul⟩
  · have e := hrefs k
    have e₀ := h.nsproxy_count k hk
    have e₁ := ht.count_eq k
    rw [hold, hnew] at e
    simp only [reduceCtorEq, if_false, Option.some.injEq] at e
    split_ifs at e e₁ <;> omega
  · have e₁ := ht.balance i
    have e₂ := pidNsUses_frame hj ht.frame i
    have e₃ := hchildren i
    have e₀ := h.pid_ns_count i hi
    rw [hold', hnew'] at e₃
    simp only [reduceCtorEq, if_false] at e₃
    split_ifs at e₁ e₂ <;> omega
  · by_cases hkj : k = j
    · subst hkj
      exact hpid
    · rw [ht.frame k hkj] at hc ⊢
      exact h.pid_ns_lt k hk hc

theorem fork (h : NsCounts s) {cur : Nat} {r : Int} (hcur : cur < NPROC) (halive : (s.proc cur).alive)
    (hf : fork s cur = .ok (s', r)) : NsCounts s' := by
  rcases fork_refs hf with rfl | ⟨np, j, hnp, hun, hother, hrun, hj, hch, htab⟩
  · exact h
  have hnew : (s'.proc np).nsRef = some j := by
    rw [Proc.nsRef_of_alive (by simp [Proc.alive, hrun]), hj]
  have hother' : ∀ q, q ≠ np → (s.proc q).Keeps (s'.proc q) := fun q hq => hother q hq ▸ .refl _
  rcases htab with ⟨c, t, hc, hcr, hsame⟩ | ⟨hc, hj', hsame⟩
  · -- 親の子の namespace `c` を指す nsproxy を作る
    obtain ⟨hjlt, -, i, hi, htn, -⟩ := create_nsproxy_count hcr
    have hci : c < NNAMESPACE := h.childRef_lt cur c (by rw [Proc.childRef_of_alive halive, hc])
    have hic : i = c := by
      rcases hi with hi | ⟨hi, -⟩
      · exact (Option.some.inj hi).symm
      · cases hi
    refine h.attach hnp hun hother' hnew hch hjlt ((NsTables.Moved.of_create hcr).sameCounts hsame)
      ⟨c, ?_, hci⟩
    rw [hsame.1, htn, hic]
    simp
  · -- 親の nsproxy `j` を共有する
    have hjn : (s.proc cur).nsRef = some j := by rw [Proc.nsRef_of_alive halive, hj']
    have hjlt := h.nsRef_lt cur j hjn
    have hpos := h.count_pos hcur hjn
    obtain ⟨i, hi, hilt⟩ := h.pid_ns_lt j hjlt hpos
    refine h.attach hnp hun hother' hnew hch hjlt ((NsTables.Moved.get s.ns j hpos).sameCounts hsame)
      ⟨i, ?_, hilt⟩
    rw [hsame.1]
    simpa [get_nsproxy] using hi

theorem exit (h : NsCounts s) {cur : Nat} {st : Int} (hcur : cur < NPROC) (halive : (s.proc cur).alive)
    (he : exit s cur st = .ok s') : NsCounts s' := by
  obtain ⟨j, t, hj, ht, hother, hz, hnsp, hpid⟩ := exit_refs he
  have hjn : (s.proc cur).nsRef = some j := by rw [Proc.nsRef_of_alive halive, hj]
  have hjlt := h.nsRef_lt cur j hjn
  have hm : s.ns.Moved t j (-1) := NsTables.Moved.of_put ht (h.count_pos hcur hjn)
  -- `cur` は `ZOMBIE` になり、どちらの参照も数えなくなる
  have hdead : (s'.proc cur).alive = false := by simp [Proc.alive, hz]
  have hnew : (s'.proc cur).nsRef = none := Proc.nsRef_of_not_alive hdead
  have hnew' : (s'.proc cur).childRef = none := Proc.childRef_of_not_alive hdead
  have hrefs := nsproxyRefs_frame hcur fun q hq => (hother q hq).nsRef
  have hchildren := childRefs_frame hcur fun q hq => (hother q hq).childRef
  obtain ⟨hnl, hcl, hul⟩ := h.procs_of_one hother
    (fun k hk => by
      rw [hnew] at hk
      cases hk)
    (fun i hi => by
      rw [hnew'] at hi
      cases hi)
    fun hp => by
      rw [hz] at hp
      cases hp
  refine ⟨fun k hk => ?_, fun i hi => ?_, hnl, hcl, fun k hk hc => ?_, hul⟩
  · have e := hrefs k
    have e₀ := h.nsproxy_count k hk
    have e₁ := hm.count_eq k
    rw [hjn, hnew] at e
    rw [hnsp]
    simp only [reduceCtorEq, if_false, Option.some.injEq] at e
    split_ifs at e e₁ <;> omega
  · have e₁ := hm.balance i
    have e₂ := pidNsUses_frame hjlt hm.frame i
    have e₃ := hchildren i
    have e₀ := h.pid_ns_count i hi
    rw [hnew', Proc.childRef_of_alive halive] at e₃
    rw [hpid i, pidNsUses_congr hnsp]
    simp only [reduceCtorEq, if_false] at e₃
    split_ifs at e₁ e₂ e₃ ⊢ <;> omega
  · rw [hnsp] at hc ⊢
    by_cases hkj : k = j
    · -- まだ使用中なら `pid_ns` は元のまま
      subst hkj
      rw [put_nsproxy_pid_ns_of_pos ht hc]
      exact h.pid_ns_lt k hk (h.count_pos hcur hjn)
    · rw [hm.frame k hkj] at hc ⊢
      exact h.pid_ns_lt k hk hc


/--
`unshare` の nsproxy の作り直し。`cur` の nsproxy を `old` から、`old` と同じ pid namespace を指す
新しい `j` に替えて `old` を放す。
-/
theorem swapNsproxy (h : NsCounts s) {cur old j : Nat} {t t₂ : NsTables} (hcur : cur < NPROC)
    (halive : (s.proc cur).alive) (hold : (s.proc cur).nsproxy = some old)
    (hcr : create_nsproxy s.ns (s.ns.nsproxy old).pid_ns = .ok (t, j)) (hput : put_nsproxy t old = .ok t₂) :
    NsCounts { s.modify cur (fun q => { q with nsproxy := some j }) with ns := t₂ } := by
  generalize hs' : { s.modify cur (fun q => { q with nsproxy := some j }) with ns := t₂ } = s'
  have hon : (s.proc cur).nsRef = some old := by rw [Proc.nsRef_of_alive halive, hold]
  have holt := h.nsRef_lt cur old hon
  have hpos := h.count_pos hcur hon
  obtain ⟨hjlt, hj0, i, hi, htn, -⟩ := create_nsproxy_count hcr
  have hjo : j ≠ old := by
    rintro rfl
    omega
  -- 表は二段で動く：`j` を作り（+1）、`old` を放す（-1）
  have hm₁ : s.ns.Moved t j 1 := .of_create hcr
  have hm₂ : t.Moved t₂ old (-1) := .of_put hput (by rw [hm₁.frame old (Ne.symm hjo)]; exact hpos)
  have hns : s'.ns = t₂ := by rw [← hs']
  have hother : ∀ q, q ≠ cur → s'.proc q = s.proc q := fun q hq => by simp [← hs', hq]
  have hcur' : s'.proc cur = { s.proc cur with nsproxy := some j } := by simp [← hs']
  have halive' : (s'.proc cur).alive := by simpa [hcur', Proc.alive] using halive
  have hnew : (s'.proc cur).nsRef = some j := by rw [Proc.nsRef_of_alive halive', hcur']
  have hchild : ∀ q, (s'.proc q).childRef = (s.proc q).childRef := fun q => by
    by_cases hq : q = cur
    · subst hq
      rw [Proc.childRef_of_alive halive', Proc.childRef_of_alive halive, hcur']
    · rw [hother q hq]
  -- 新しい nsproxy は `old` の pid namespace を指す
  have hilt : i < NNAMESPACE := by
    rcases hi with hi | ⟨-, hi⟩
    · obtain ⟨i', hi', hilt'⟩ := h.pid_ns_lt old holt hpos
      rw [hi'] at hi
      cases hi
      exact hilt'
    · exact hi
  have hother' : ∀ q, q ≠ cur → (s.proc q).Keeps (s'.proc q) := fun q hq => by
    rw [hother q hq]
    exact .refl _
  have hrefs := nsproxyRefs_frame hcur fun q hq => (hother' q hq).nsRef
  obtain ⟨hnl, hcl, hul⟩ := h.procs_of_one hother'
    (fun k hk => by
      rw [hnew] at hk
      cases hk
      exact hjlt)
    (fun i' hi' => h.childRef_lt cur i' (by rwa [hchild cur] at hi'))
    fun hp => absurd hp ((Proc.alive_iff _).1 halive').1
  refine ⟨fun k hk => ?_, fun i' hi' => ?_, hnl, hcl, fun k hk hc => ?_, hul⟩
  · have e := hrefs k
    have e₀ := h.nsproxy_count k hk
    have e₁ := hm₁.count_eq k
    have e₂ := hm₂.count_eq k
    rw [hon, hnew] at e
    simp only [Option.some.injEq] at e
    rw [hns]
    split_ifs at e e₁ e₂ <;> omega
  · have e₁ := hm₁.balance i'
    have e₂ := hm₂.balance i'
    have e₃ := pidNsUses_frame hjlt hm₁.frame i'
    have e₄ := pidNsUses_frame holt hm₂.frame i'
    have e₀ := h.pid_ns_count i' hi'
    rw [hns, childRefs_congr hchild]
    split_ifs at e₁ e₂ e₃ e₄ <;> omega
  · rw [hns] at hc ⊢
    by_cases hko : k = old
    · -- まだ使用中なら `pid_ns` は元のまま
      subst hko
      rw [put_nsproxy_pid_ns_of_pos hput hc, hm₁.frame k (Ne.symm hjo)]
      exact h.pid_ns_lt k hk hpos
    · rw [hm₂.frame k hko] at hc ⊢
      by_cases hkj : k = j
      · subst hkj
        exact ⟨i, by rw [htn]; simp, hilt⟩
      · rw [hm₁.frame k hkj] at hc ⊢
        exact h.pid_ns_lt k hk hc

/-- `unsharePidNs` は、子の namespace を持たない生きた `cur` に新しい pid namespace を持たせる。 -/
theorem unsharePidNs (h : NsCounts s) {cur : Nat} (hcur : cur < NPROC) (halive : (s.proc cur).alive)
    (hu : unsharePidNs s cur = .ok s') : NsCounts s' := by
  obtain ⟨ns, c, t, hch, hc, rfl⟩ := unsharePidNs_eq_ok hu
  obtain ⟨hclt, -, -, -⟩ := create_new_pid_namespace_spec hc
  obtain ⟨htn, htc⟩ := create_new_pid_namespace_count hc
  generalize hs' : { s.modify cur (fun q => { q with child_pid_namespace := some c }) with ns := t } = s'
  have hns : s'.ns = t := by rw [← hs']
  have hother : ∀ q, q ≠ cur → s'.proc q = s.proc q := fun q hq => by simp [← hs', hq]
  have hcur' : s'.proc cur = { s.proc cur with child_pid_namespace := some c } := by simp [← hs']
  have halive' : (s'.proc cur).alive := by simpa [hcur', Proc.alive] using halive
  have hnsRef : ∀ q, (s'.proc q).nsRef = (s.proc q).nsRef := fun q => by
    by_cases hq : q = cur
    · subst hq
      rw [Proc.nsRef_of_alive halive', Proc.nsRef_of_alive halive, hcur']
    · rw [hother q hq]
  have hnew : (s'.proc cur).childRef = some c := by rw [Proc.childRef_of_alive halive', hcur']
  have hold : (s.proc cur).childRef = none := by rw [Proc.childRef_of_alive halive, hch]
  have hother' : ∀ q, q ≠ cur → (s.proc q).Keeps (s'.proc q) := fun q hq => by
    rw [hother q hq]
    exact .refl _
  have hchildren := childRefs_frame hcur fun q hq => (hother' q hq).childRef
  obtain ⟨hnl, hcl, hul⟩ := h.procs_of_one hother'
    (fun k hk => h.nsRef_lt cur k (by rwa [hnsRef cur] at hk))
    (fun i hi => by
      rw [hnew] at hi
      cases hi
      exact hclt)
    fun hp => absurd hp ((Proc.alive_iff _).1 halive').1
  refine ⟨fun k hk => ?_, fun i hi => ?_, hnl, hcl, fun k hk hc => ?_, hul⟩
  · rw [hns, htn, nsproxyRefs_congr hnsRef]
    exact h.nsproxy_count k hk
  · have e := hchildren i
    have e₀ := h.pid_ns_count i hi
    rw [hold, hnew] at e
    rw [hns, htc i, pidNsUses_congr htn]
    by_cases hic : i = c
    · subst hic
      simp only [reduceCtorEq, if_false, if_true] at e ⊢
      omega
    · simp only [reduceCtorEq, if_false, Option.some.injEq, Ne.symm hic, hic] at e ⊢
      omega
  · rw [hns, htn] at hc ⊢
    exact h.pid_ns_lt k hk hc

theorem unshare (h : NsCounts s) {cur : Nat} {flags r : Int} (hcur : cur < NPROC)
    (halive : (s.proc cur).alive) (hu : unshare s cur flags = .ok (s', r)) : NsCounts s' := by
  obtain ⟨old, j, t, t₂, hold, hcr, hput, hrest⟩ := unshare_eq_ok hu
  have h₂ := h.swapNsproxy hcur halive hold hcr hput
  rcases hrest with ⟨-, h₃⟩ | ⟨-, rfl⟩
  · exact h₂.unsharePidNs hcur (by simpa [Proc.alive] using halive) h₃
  · exact h₂

theorem procCall (h : NsCounts s) {c : ProcCall} (hcur : c.cur < NPROC) (halive : (s.proc c.cur).alive)
    (hc : procCall s c = .ok s') : NsCounts s' := by
  cases c with
  | fork cur =>
    obtain ⟨⟨s₁, r⟩, h₁, rfl⟩ := map_eq_ok.mp hc
    exact h.fork hcur halive h₁
  | exit cur st => exact h.exit hcur halive hc
  | wait cur =>
    cases hc
    exact h.wait halive
  | kill cur pid =>
    cases hc
    exact h.kill cur pid
  | unshare cur flags =>
    obtain ⟨⟨s₁, r⟩, h₁, rfl⟩ := map_eq_ok.mp hc
    exact h.unshare hcur halive h₁

/-- scheduler が走らせる process は `RUNNABLE` で、kill されていれば `exit` する。 -/
theorem runProc (h : NsCounts s) {c : ProcCall} (hr : runProc s c = .ok s') : NsCounts s' := by
  unfold Xv6.runProc syscall at hr
  split at hr
  · rename_i hrun
    have halive : (s.proc c.cur).alive := by simp [Proc.alive, hrun.2]
    split at hr
    · exact h.exit hrun.1 halive hr
    · obtain ⟨s₁, h₁, hr⟩ := bind_eq_ok.mp hr
      have h₁' := h.procCall hrun.1 halive h₁
      split at hr
      · rename_i hk
        exact h₁'.exit hrun.1 (by simp [Proc.alive, hk.2]) hr
      · cases hr
        exact h₁'
  · cases hr

theorem userinit (h₀ : userinit ProcSys.zero = .ok s) : NsCounts s := by
  obtain ⟨p, j, t, hp, hother, hrun, hj, hch, hcr, hsame⟩ := userinit_refs h₀
  obtain ⟨hjlt, -, i, hi, htn, -⟩ := create_nsproxy_count hcr
  have hilt : i < NNAMESPACE := by
    rcases hi with hi | ⟨-, hi⟩
    · cases hi
    · exact hi
  refine zero.attach hp rfl (fun q hq => by rw [hother q hq]; exact .refl _) ?_ (by rw [hch]; rfl) hjlt
    ((NsTables.Moved.of_create hcr).sameCounts hsame) ⟨i, ?_, hilt⟩
  · rw [Proc.nsRef_of_alive (by simp [Proc.alive, hrun]), hj]
  · rw [hsame.1, htn]
    simp

end NsCounts

/-- 到達できる状態は `NsCounts` を満たす。 -/
theorem ProcReach.nsCounts {s : ProcSys} (h : ProcReach s) : NsCounts s :=
  Reach.rec_inv NsCounts (fun _ h₀ => NsCounts.userinit h₀) (fun _ _ hs ⟨_, hr⟩ => hs.runProc hr) h

/--
**namespace の参照の数は正確である。** `userinit` から到達できるどの状態でも、nsproxy の `count` は
それを指す、まだ `exit` していない process の数に等しい。pid namespace の `count` は、それを指す
使用中の nsproxy の数と、それを子の namespace に持つ、まだ `exit` していない process の数の和に
等しい。`count` が 0 の entry を指すものは、数えるものの中にない。
-/
theorem ns_refcounts_exact {s : ProcSys} (hs : ProcReach s) :
    (∀ j < NNAMESPACE, (s.ns.nsproxy j).count = nsproxyRefs s j) ∧
    (∀ i < NNAMESPACE, (s.ns.pid_namespaces i).count = pidNsUses s.ns i + childRefs s i) ∧
    (∀ j < NNAMESPACE, (s.ns.nsproxy j).count = 0 ↔ ∀ p < NPROC, (s.proc p).nsRef ≠ some j) ∧
    (∀ i < NNAMESPACE, (s.ns.pid_namespaces i).count = 0 ↔
      (∀ j < NNAMESPACE, ¬ (s.ns.nsproxy j).Uses i) ∧ ∀ p < NPROC, (s.proc p).childRef ≠ some i) := by
  have h := hs.nsCounts
  refine ⟨h.nsproxy_count, h.pid_ns_count, fun j hj => ?_, fun i hi => ?_⟩
  · rw [h.nsproxy_count j hj, ← nsproxyRefs_eq_zero]
    omega
  · rw [h.pid_ns_count i hi, ← pidNsUses_eq_zero, ← childRefs_eq_zero]
    omega

set_option maxRecDepth 4000 in
/--
init process が `unshare(PID_NS)` して子 1 を作り、子 1 が孫 2 を作り、孫 2 が `exit` して子 1 が
`wait` で回収した後の状態。
-/
theorem ns_refcounts_exact_after_unshare :
    ∃ s, ProcReach s ∧
      (∀ j < NNAMESPACE, (s.ns.nsproxy j).count = nsproxyRefs s j) ∧
      (∀ i < NNAMESPACE, (s.ns.pid_namespaces i).count = pidNsUses s.ns i + childRefs s i) ∧
      (∀ j < NNAMESPACE, (s.ns.nsproxy j).count = 0 ↔ ∀ p < NPROC, (s.proc p).nsRef ≠ some j) ∧
      (∀ i < NNAMESPACE, (s.ns.pid_namespaces i).count = 0 ↔
        (∀ j < NNAMESPACE, ¬ (s.ns.nsproxy j).Uses i) ∧ ∀ p < NPROC, (s.proc p).childRef ≠ some i) := by
  obtain ⟨s₀, s, h₀, hs⟩ : ∃ s₀ s, userinit ProcSys.zero = .ok s₀ ∧
      runList runProc s₀ [.unshare 0 1, .fork 0, .fork 1, .exit 2 0, .wait 1] = .ok s := ⟨_, _, rfl, rfl⟩
  exact ⟨s, .of_runList h₀ hs, ns_refcounts_exact (.of_runList h₀ hs)⟩

end Xv6

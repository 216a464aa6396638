import Xv6Mount.Proc.Pid

/-!
# `kill` と pid namespace

`kill(pid)` は呼んだ process の namespace `N` で `get_namespace_pid(q, N) == pid` となる最初の
slot を kill する。`get_namespace_pid` は `N` に pid を持たない slot にも 0 を返す。

到達できる状態では、`UNUSED` の slot の `pids` は 0 で埋まり、どの pid も 0 以上である
（`SlotsWF`、`ProcReach.slotsWF`）。そのため pid が 0 でない `kill` は、`N` で正の pid を持つ
`UNUSED` でない process だけを kill する（`kill_nonzero_respects_namespace`）。

pid 0 の `kill` はそうではない。`N` に pid を持たない最初の slot が選ばれる。子の namespace の
process が `kill(0)` を呼ぶと slot 0 の init process が kill され、init process の次の system call が
"init exiting" で panic する（`kill_zero_kills_init`）。選ばれた slot が `UNUSED` なら、空きの slot に
`killed` が立つ。`allocproc` も `fork` も `killed` を消さないので（`fork_killed`）、その slot から
生まれる子は kill された状態で始まる（`kill_zero_marks_unused_slot`）。
-/

namespace Xv6

open Infra

/-! ## `next_pid` -/

/-- pid namespace の `next_pid` がどれも 0 以上であること。 -/
def NsTables.NextNonneg (t : NsTables) : Prop := ∀ n, 0 ≤ (t.pid_namespaces n).next_pid

namespace NsTables.NextNonneg

variable {t t' : NsTables}

theorem modifyPidNs (h : t.NextNonneg) {i : Nat} {f : PidNamespace → PidNamespace}
    (hf : (f (t.pid_namespaces i)).next_pid = (t.pid_namespaces i).next_pid) :
    (t.modifyPidNs i f).NextNonneg := by
  intro n
  by_cases hn : n = i
  · subst hn
    rw [modifyPidNs_self, hf]
    exact h n
  · rw [modifyPidNs_of_ne _ _ _ hn]
    exact h n

theorem modifyNsproxy (h : t.NextNonneg) (j : Nat) (f : Nsproxy → Nsproxy) :
    (t.modifyNsproxy j f).NextNonneg := fun n => h n

theorem remove_from_pid_namespace (h : t.NextNonneg) {i : Nat}
    (hr : remove_from_pid_namespace t i = .ok t') : t'.NextNonneg := by
  unfold Xv6.remove_from_pid_namespace at hr
  split at hr
  · cases hr
  · cases hr
    exact h.modifyPidNs rfl

theorem create_new_pid_namespace (h : t.NextNonneg) {parent : Option Nat} {c : Nat}
    (hc : create_new_pid_namespace t parent = .ok (t', c)) : t'.NextNonneg := by
  unfold Xv6.create_new_pid_namespace at hc
  split at hc
  · cases hc
    intro n
    simp only [Function.update_apply]
    split
    · show (0 : Int) ≤ 1
      decide
    · exact h n
  · cases hc

/-- `alloc_new_pid` は `next_pid` を一つ進め、0 以上の pid を返す。 -/
theorem alloc_new_pid (h : t.NextNonneg) (i : Nat) :
    (Xv6.alloc_new_pid t i).1.NextNonneg ∧ 0 ≤ (Xv6.alloc_new_pid t i).2 := by
  refine ⟨fun n => ?_, h i⟩
  by_cases hn : n = i
  · subst hn
    have := h n
    simp only [Xv6.alloc_new_pid, modifyPidNs_self]
    omega
  · simp only [Xv6.alloc_new_pid, modifyPidNs_of_ne _ _ _ hn]
    exact h n

theorem create_nsproxy (h : t.NextNonneg) {p : Option Nat} {j : Nat}
    (hc : create_nsproxy t p = .ok (t', j)) : t'.NextNonneg := by
  unfold Xv6.create_nsproxy at hc
  split at hc
  · cases p with
    | none =>
      obtain ⟨⟨t₁, ns⟩, h₁, hc⟩ := bind_eq_ok.mp hc
      cases hc
      exact fun n => h.create_new_pid_namespace h₁ n
    | some p =>
      cases hc
      have h₁ : (increase_pid_namespace_count t p).NextNonneg := h.modifyPidNs rfl
      exact fun n => h₁ n
  · cases hc

theorem put_nsproxy (h : t.NextNonneg) {j : Nat} (hp : put_nsproxy t j = .ok t') : t'.NextNonneg := by
  unfold Xv6.put_nsproxy at hp
  dsimp only at hp
  split at hp
  · split at hp
    · obtain ⟨t₁, h₁, hp⟩ := bind_eq_ok.mp hp
      cases hp
      exact ((h.modifyNsproxy _ _).remove_from_pid_namespace h₁).modifyNsproxy _ _
    · cases hp
  · cases hp
    exact h.modifyNsproxy _ _

end NsTables.NextNonneg

/-! ## 到達できる状態の slot -/

/--
process の表の不変条件。`UNUSED` の slot の `pids` は 0 で埋まっている。どの slot の pid も、
どの namespace の `next_pid` も 0 以上である。
-/
structure SlotsWF (s : ProcSys) : Prop where
  unused_pids : ∀ p, (s.proc p).state = .UNUSED → (s.proc p).pids = PidEntry.zeros
  pids_nonneg : ∀ p i, 0 ≤ ((s.proc p).pids i).pid
  next_nonneg : s.ns.NextNonneg

theorem get_namespace_pid_of_zeros {p : Proc} (h : p.pids = PidEntry.zeros) (ns : Option Nat) :
    get_namespace_pid p ns = 0 := by
  unfold get_namespace_pid
  split <;> simp [h, PidEntry.zeros]

theorem get_namespace_pid_nonneg {p : Proc} (h : ∀ i, 0 ≤ (p.pids i).pid) (ns : Option Nat) :
    0 ≤ get_namespace_pid p ns := by
  unfold get_namespace_pid
  split
  · exact h _
  · exact Int.le_refl 0

namespace SlotsWF

variable {s s' : ProcSys}

theorem zero : SlotsWF ProcSys.zero where
  unused_pids _ _ := rfl
  pids_nonneg _ _ := Int.le_refl 0
  next_nonneg _ := Int.le_refl 0

/-- `proc` と `ns` だけを見る。 -/
theorem congr (h : SlotsWF s) (hp : s'.proc = s.proc) (hn : s'.ns = s.ns) : SlotsWF s' where
  unused_pids := hp ▸ h.unused_pids
  pids_nonneg := hp ▸ h.pids_nonneg
  next_nonneg := hn ▸ h.next_nonneg

theorem with_ns (h : SlotsWF s) {t : NsTables} (ht : t.NextNonneg) : SlotsWF { s with ns := t } where
  unused_pids := h.unused_pids
  pids_nonneg := h.pids_nonneg
  next_nonneg := ht

/-- slot `p` を書き換えた後の slot が条件を満たせば、表は条件を満たす。 -/
theorem modify (h : SlotsWF s) {p : Nat} {f : Proc → Proc}
    (hu : (f (s.proc p)).state = .UNUSED → (f (s.proc p)).pids = PidEntry.zeros)
    (hn : ∀ i, 0 ≤ ((f (s.proc p)).pids i).pid) : SlotsWF (s.modify p f) where
  unused_pids q hq := by
    by_cases hqp : q = p
    · subst hqp
      rw [ProcSys.modify_self] at hq ⊢
      exact hu hq
    · rw [ProcSys.modify_of_ne _ _ _ hqp] at hq ⊢
      exact h.unused_pids q hq
  pids_nonneg q i := by
    by_cases hqp : q = p
    · subst hqp
      rw [ProcSys.modify_self]
      exact hn i
    · rw [ProcSys.modify_of_ne _ _ _ hqp]
      exact h.pids_nonneg q i
  next_nonneg := h.next_nonneg

/-- `pids` を変えず、`UNUSED` の slot を新しく作らない書き換え。 -/
theorem modify_keep (h : SlotsWF s) {p : Nat} {f : Proc → Proc}
    (hp : (f (s.proc p)).pids = (s.proc p).pids)
    (hs : (f (s.proc p)).state = .UNUSED → (s.proc p).state = .UNUSED) : SlotsWF (s.modify p f) :=
  h.modify (fun hu => hp.trans (h.unused_pids p (hs hu))) (fun i => hp ▸ h.pids_nonneg p i)

theorem wakeup1 (h : SlotsWF s) (chan : Option Nat) : SlotsWF (wakeup1 s chan) := by
  unfold Xv6.wakeup1
  split
  · split
    · exact h.modify_keep rfl (fun hu => by cases hu)
    · exact h
  · exact h

theorem kill_process (h : SlotsWF s) (p : Nat) (np : Option Nat) :
    SlotsWF (s.modify p fun q => Xv6.kill_process q np) := by
  refine h.modify_keep rfl fun hu => ?_
  simp only [Xv6.kill_process] at hu
  split at hu
  · cases hu
  · exact hu

theorem killNamespace (h : SlotsWF s) (cur : Nat) (ns : Option Nat) :
    SlotsWF (killNamespace s cur ns) := by
  unfold Xv6.killNamespace
  refine List.foldlRecOn _ _ h fun t ht p _ => ?_
  split
  · exact ht.kill_process p _
  · exact ht

theorem reparent (h : SlotsWF s) (cur : Nat) (reaper : Option Nat) :
    SlotsWF (reparent s cur reaper) := by
  unfold Xv6.reparent
  refine List.foldlRecOn _ _ h fun t ht p _ => ?_
  dsimp only
  split
  · have ht' : SlotsWF (t.modify p fun q => { q with parent := reaper }) := ht.modify_keep rfl id
    split
    · exact ht'.wakeup1 _
    · exact ht'
  · exact ht

theorem exit (h : SlotsWF s) {cur : Nat} {st : Int} (he : exit s cur st = .ok s') : SlotsWF s' := by
  obtain ⟨ns, j, t, s₂, s₃, s₄, -, -, -, ht, hs₂, hbr, hcp, hs'⟩ := exit_cases he
  have h₁ : SlotsWF (s.modify cur fun q => { q with exit_state := st }) := h.modify_keep rfl id
  have h₂ : SlotsWF s₂ := hs₂ ▸ (h₁.with_ns (h.next_nonneg.put_nsproxy ht)).wakeup1 (s.proc cur).parent
  -- pid 1 の process なら namespace を kill し、そうでなければ子を渡す
  have h₃ : SlotsWF s₃ := by
    rcases hbr with ⟨-, hs₃⟩ | ⟨-, hs₃⟩
    · have hk := h₂.killNamespace cur (some ns)
      rw [hs₃]
      exact hk.with_ns (hk.next_nonneg.modifyPidNs rfl)
    · rw [hs₃]
      exact h₂.reparent cur _
  have h₄ : SlotsWF s₄ := by
    rcases hcp with ⟨c, u, -, hu, hs₄⟩ | ⟨-, hs₄⟩
    · rw [hs₄]
      exact h₃.with_ns (h₃.next_nonneg.remove_from_pid_namespace hu)
    · rw [hs₄]
      exact h₃
  rw [hs']
  refine h₄.modify_keep rfl ?_
  intro hz
  cases hz

theorem allocproc (h : SlotsWF s) {np : Nat} (ha : allocproc s = some (s', np)) :
    SlotsWF s' ∧ (s'.proc np).state = .EMBRYO := by
  unfold Xv6.allocproc at ha
  split at ha
  · rename_i p _
    obtain ⟨rfl, rfl⟩ := Prod.mk.inj (Option.some.inj ha)
    have hm : SlotsWF (s.modify p fun q => { q with state := .EMBRYO, pid := s.nextpid }) := by
      refine h.modify_keep rfl ?_
      intro hu
      cases hu
    exact ⟨hm.congr rfl rfl, by simp⟩
  · cases ha

/-- `set_up_pids` の loop は `UNUSED` でない slot `np` の `pids` に 0 以上の pid を入れる。 -/
theorem setUpPidsLoop {np : Nat} :
    ∀ {k i : Nat} {ns : Option Nat} {s s' : ProcSys}, SlotsWF s → (s.proc np).state ≠ .UNUSED →
    Xv6.setUpPidsLoop np k i ns s = .ok s' → SlotsWF s'
  | k, _, none, _, _, _, _, hl => by cases k <;> simp [Xv6.setUpPidsLoop] at hl
  | 0, _, some _, _, _, _, _, hl => by simp [Xv6.setUpPidsLoop] at hl
  | k + 1, i, some ns, s, s', h, hnp, hl => by
    simp only [Xv6.setUpPidsLoop] at hl
    obtain ⟨ht, hpid⟩ := h.next_nonneg.alloc_new_pid ns
    -- 段 `i` に入れる entry の pid は `next_pid` で、0 以上である
    have hn : ∀ i', 0 ≤ ((Function.update (s.proc np).pids i ⟨some ns, (alloc_new_pid s.ns ns).2⟩) i').pid := by
      intro i'
      by_cases hi : i' = i
      · subst hi; simpa using hpid
      · simpa [Function.update_of_ne hi] using h.pids_nonneg np i'
    split at hl
    · cases hl
      refine (h.modify ?_ hn).with_ns ht
      intro hu
      exact absurd hu hnp
    · refine setUpPidsLoop ((h.modify ?_ hn).with_ns ht) ?_ hl
      · intro hu
        exact absurd hu hnp
      · simpa using hnp

theorem set_up_child_pid_namespace (h : SlotsWF s) {cur np : Nat} {c : Option Nat}
    (hs : set_up_child_pid_namespace s cur np = .ok (s', c)) :
    SlotsWF s' ∧ (s'.proc np).state = (s.proc np).state := by
  unfold Xv6.set_up_child_pid_namespace at hs
  split at hs
  · obtain ⟨⟨t, j⟩, ht, hs⟩ := bind_eq_ok.mp hs
    cases hs
    exact ⟨(h.modify_keep rfl id).with_ns (h.next_nonneg.create_nsproxy ht), by simp⟩
  · split at hs
    · cases hs
      exact ⟨(h.with_ns (h.next_nonneg.modifyNsproxy _ _)).modify_keep rfl id, by simp⟩
    · cases hs

theorem fork (h : SlotsWF s) {cur : Nat} {r : Int} (hf : fork s cur = .ok (s', r)) : SlotsWF s' := by
  unfold Xv6.fork at hf
  cases ha : Xv6.allocproc s with
  | none =>
    simp only [ha, pure_eq_ok, Except.ok.injEq, Prod.mk.injEq] at hf
    rw [← hf.1]
    exact h
  | some a =>
    obtain ⟨s₁, np⟩ := a
    simp only [ha] at hf
    obtain ⟨h₁, hemb⟩ := h.allocproc ha
    have h₁' : SlotsWF (s₁.modify np fun q => { q with parent := some cur }) := h₁.modify_keep rfl id
    obtain ⟨⟨s₂, c⟩, h₂, hf⟩ := bind_eq_ok.mp hf
    obtain ⟨h₂', hst₂⟩ := h₁'.set_up_child_pid_namespace h₂
    obtain ⟨s₃, h₃, hf⟩ := bind_eq_ok.mp hf
    have hnp : (s₂.proc np).state ≠ .UNUSED := by simp [hst₂, hemb]
    have h₃' := h₂'.setUpPidsLoop hnp h₃
    cases hf
    exact (h₃'.modify_keep rfl id).modify_keep rfl (fun hu => by cases hu)

theorem wait (h : SlotsWF s) (cur : Nat) : SlotsWF (wait s cur).1 := by
  unfold Xv6.wait
  dsimp only
  split
  · exact h.modify (fun _ => rfl) (fun _ => Int.le_refl 0)
  · split
    · exact h
    · show SlotsWF (s.modify cur fun q => { q with state := .SLEEPING })
      refine h.modify_keep rfl ?_
      intro hu
      cases hu

theorem kill (h : SlotsWF s) (cur : Nat) (pid : Int) : SlotsWF (kill s cur pid).1 := by
  unfold Xv6.kill
  dsimp only
  split
  · exact h.kill_process _ _
  · exact h

theorem unsharePidNs (h : SlotsWF s) {cur : Nat} (hu : unsharePidNs s cur = .ok s') : SlotsWF s' := by
  unfold Xv6.unsharePidNs at hu
  by_cases hch : (s.proc cur).child_pid_namespace = none
  · simp only [hch, ne_eq, not_true_eq_false, if_false] at hu
    cases hp : pidNsOf s cur with
    | none => simp [hp] at hu
    | some ns =>
      simp only [hp] at hu
      by_cases hd : check_is_pid_namespace_legal (s.ns.pid_namespaces ns) = false
      · simp [hd] at hu
      simp only [hd] at hu
      obtain ⟨⟨t, c⟩, hc, hu⟩ := bind_eq_ok.mp hu
      cases hu
      have hm : SlotsWF (s.modify cur fun q => { q with child_pid_namespace := some c }) :=
        h.modify_keep rfl id
      exact hm.with_ns (h.next_nonneg.create_new_pid_namespace hc)
  · simp [hch] at hu

theorem unshare (h : SlotsWF s) {cur : Nat} {flags r : Int} (hu : unshare s cur flags = .ok (s', r)) :
    SlotsWF s' := by
  unfold Xv6.unshare at hu
  cases hn : (s.proc cur).nsproxy with
  | none => simp [hn] at hu
  | some old =>
    simp only [hn] at hu
    by_cases hc : (s.ns.nsproxy old).count < 1
    · simp [hc] at hu
    rw [if_neg hc] at hu
    obtain ⟨⟨t, j⟩, ht, hu⟩ := bind_eq_ok.mp hu
    have hm : SlotsWF (s.modify cur fun q => { q with nsproxy := some j }) := h.modify_keep rfl id
    have h₁ := hm.with_ns (h.next_nonneg.create_nsproxy ht)
    obtain ⟨t₂, ht₂, hu⟩ := bind_eq_ok.mp hu
    have h₂ := h₁.with_ns (h₁.next_nonneg.put_nsproxy ht₂)
    by_cases hf : Int.land flags PID_NS > 0
    · rw [if_pos hf] at hu
      obtain ⟨s₃, h₃, hu⟩ := bind_eq_ok.mp hu
      cases hu
      exact h₂.unsharePidNs h₃
    · rw [if_neg hf] at hu
      cases hu
      exact h₂

theorem procCall (h : SlotsWF s) {c : ProcCall} (hc : procCall s c = .ok s') : SlotsWF s' := by
  cases c with
  | fork cur =>
    obtain ⟨⟨s₁, r⟩, h₁, rfl⟩ := map_eq_ok.mp hc
    exact h.fork h₁
  | exit cur st => exact h.exit hc
  | wait cur =>
    cases hc
    exact h.wait cur
  | kill cur pid =>
    cases hc
    exact h.kill cur pid
  | unshare cur flags =>
    obtain ⟨⟨s₁, r⟩, h₁, rfl⟩ := map_eq_ok.mp hc
    exact h.unshare h₁

theorem runProc (h : SlotsWF s) {c : ProcCall} (hr : runProc s c = .ok s') : SlotsWF s' := by
  unfold Xv6.runProc syscall at hr
  split at hr
  · split at hr
    · exact h.exit hr
    · obtain ⟨s₁, h₁, hr⟩ := bind_eq_ok.mp hr
      have h₁' := h.procCall h₁
      split at hr
      · exact h₁'.exit hr
      · cases hr
        exact h₁'
  · cases hr

theorem userinit (h : userinit ProcSys.zero = .ok s) : SlotsWF s := by
  unfold Xv6.userinit at h
  split at h
  · rename_i s₁ p ha
    obtain ⟨h₁, hemb⟩ := zero.allocproc ha
    obtain ⟨⟨t, j⟩, ht, h⟩ := bind_eq_ok.mp h
    generalize hs₁ : ({ proc := s₁.proc, nextpid := s₁.nextpid, initproc := some p, ns := s₁.ns } : ProcSys) =
      s₁' at h ht
    simp only at h
    generalize hX : s₁'.modify p (fun q => { q with nsproxy := some j }) = X at h
    generalize hs₂ : ({ X with ns := t } : ProcSys) = s₂ at h
    -- init process の nsproxy と root の pid namespace を作った後
    have h₁' : SlotsWF s₁' := hs₁ ▸ h₁.congr rfl rfl
    have ht' : t.NextNonneg := h₁'.next_nonneg.create_nsproxy ht
    have h₂ : SlotsWF s₂ := hs₂ ▸ (hX ▸ h₁'.modify_keep rfl id : SlotsWF X).with_ns ht'
    have hst : (s₂.proc p).state = .EMBRYO := by
      rw [← hs₂, ← hX, ← hs₁]
      simpa using hemb
    split at h
    · rename_i ns _
      simp only [pure_eq_ok, Except.ok.injEq] at h
      subst h
      obtain ⟨ht'', hpid⟩ := ht'.alloc_new_pid ns
      -- `pids[0]` に root namespace の pid を入れる
      refine ((h₂.modify ?_ ?_).with_ns ht'').modify_keep rfl ?_
      · intro hu
        simp [hst] at hu
      · intro i
        by_cases hi : i = 0
        · subst hi; simpa using hpid
        · simpa [Function.update_of_ne hi] using h₂.pids_nonneg p i
      · intro hu
        cases hu
    · simp at h
  · simp at h

end SlotsWF

/-- 到達できる状態は `SlotsWF` を満たす。 -/
theorem ProcReach.slotsWF {s : ProcSys} (h : ProcReach s) : SlotsWF s :=
  Reach.rec_inv SlotsWF (fun _ h₀ => SlotsWF.userinit h₀) (fun _ _ hs ⟨_, hr⟩ => hs.runProc hr) h

/-! ## `kill` -/

/-- `kill` は、`N` での pid が一致する最初の slot を kill して 0 を返すか、何も変えずに -1 を返す。 -/
theorem kill_cases (s : ProcSys) (cur : Nat) (pid : Int) :
    (∃ q, q < NPROC ∧ get_namespace_pid (s.proc q) (pidNsOf s cur) = pid ∧
      kill s cur pid = (s.modify q fun p => kill_process p p.parent, 0)) ∨
    ((∀ q, q < NPROC → get_namespace_pid (s.proc q) (pidNsOf s cur) ≠ pid) ∧ kill s cur pid = (s, -1)) := by
  unfold kill
  dsimp only
  cases hq : (List.range NPROC).find? (fun p => get_namespace_pid (s.proc p) (pidNsOf s cur) == pid) with
  | some q =>
    have hp := List.find?_some hq
    simp only [beq_iff_eq] at hp
    exact .inl ⟨q, List.mem_range.mp (List.mem_of_find?_eq_some hq), hp, rfl⟩
  | none =>
    refine .inr ⟨fun q hq' => ?_, rfl⟩
    have hp := List.find?_eq_none.mp hq q (List.mem_range.mpr hq')
    simpa using hp

/--
init process が `unshare(PID_NS)` して子 1 を作る。子の namespace に init process の pid はないが、
子の `kill(0)` は `get_namespace_pid` が 0 を返す最初の slot、つまり init process を kill して 0 を返す。
init process の次の system call は `exit(0)` に回り、"init exiting" で panic する。
-/
theorem kill_zero_kills_init :
    ∃ s, ProcReach s ∧ s.initproc = some 0 ∧ pidNsOf s 1 ≠ pidNsOf s 0 ∧
      get_namespace_pid (s.proc 0) (pidNsOf s 1) = 0 ∧
      (kill s 1 0).2 = 0 ∧ ((kill s 1 0).1.proc 0).killed = true ∧
      runProc (kill s 1 0).1 (.wait 0) = .error (.panic "init exiting") := by
  obtain ⟨s₀, s, h₀, hs, h⟩ : ∃ s₀ s, userinit ProcSys.zero = .ok s₀ ∧
      runList runProc s₀ [.unshare 0 1, .fork 0] = .ok s ∧
      (s.initproc = some 0 ∧ pidNsOf s 1 ≠ pidNsOf s 0 ∧
      get_namespace_pid (s.proc 0) (pidNsOf s 1) = 0 ∧
      (kill s 1 0).2 = 0 ∧ ((kill s 1 0).1.proc 0).killed = true ∧
      runProc (kill s 1 0).1 (.wait 0) = .error (.panic "init exiting")) :=
    ⟨_, _, rfl, rfl, rfl, by decide, by decide, by decide, by decide, rfl⟩
  exact ⟨s, .of_runList h₀ hs, h⟩

/--
**`kill(0)` は空きの slot を kill する。** 到達できる状態で、呼んだ process の namespace `N` に pid を
持たない最初の slot `q` が `UNUSED` なら、`kill(0)` は `q` を kill して 0 を返す。`q` は `UNUSED` のまま
`killed` が立ち、`fork` は `killed` に触れないので、続くどの `fork` の後も `q` の `killed` は立っている。
-/
theorem kill_zero_marks_unused_slot {s : ProcSys} (hs : ProcReach s) {cur q : Nat} (hq : q < NPROC)
    (hu : (s.proc q).state = .UNUSED) (hbefore : ∀ p < q, get_namespace_pid (s.proc p) (pidNsOf s cur) ≠ 0) :
    kill s cur 0 = (s.modify q fun p => kill_process p p.parent, 0) ∧
      ((kill s cur 0).1.proc q).state = .UNUSED ∧ ((kill s cur 0).1.proc q).killed = true ∧
      ∀ cur' s' r, fork (kill s cur 0).1 cur' = .ok (s', r) → (s'.proc q).killed = true := by
  -- `UNUSED` の slot の pid はどの namespace でも 0 なので、`q` が最初に一致する slot である
  have hz : get_namespace_pid (s.proc q) (pidNsOf s cur) = 0 :=
    get_namespace_pid_of_zeros (hs.slotsWF.unused_pids q hu) _
  have hfind : (List.range NPROC).find? (fun p => get_namespace_pid (s.proc p) (pidNsOf s cur) == 0) =
      some q := by
    rw [List.find?_range_eq_some]
    refine ⟨by simp [hz], List.mem_range.2 hq, fun j hj => ?_⟩
    simpa using hbefore j hj
  have hk : kill s cur 0 = (s.modify q fun p => kill_process p p.parent, 0) := by
    unfold kill
    dsimp only
    rw [hfind]
  have hkq : (kill s cur 0).1.proc q = kill_process (s.proc q) (s.proc q).parent := by
    rw [hk]
    simp
  refine ⟨hk, ?_, ?_, fun cur' s' r hf => ?_⟩
  · rw [hkq]
    simp [kill_process, hu]
  · rw [hkq]
    rfl
  · rw [fork_killed hf q, hkq]
    rfl

/--
起動した kernel で init process が `kill(0)` を呼ぶと、空きの slot 1 が kill される。続く `fork` の子は
slot 1 に `RUNNABLE` で、親を init process として、kill された状態で生まれる。
-/
theorem kill_zero_then_fork_at_boot :
    ∃ s, ProcReach s ∧ 1 < NPROC ∧ (s.proc 1).state = .UNUSED ∧
      (∀ p < 1, get_namespace_pid (s.proc p) (pidNsOf s 0) ≠ 0) ∧
      (kill s 0 0 = (s.modify 1 fun p => kill_process p p.parent, 0) ∧
        ((kill s 0 0).1.proc 1).state = .UNUSED ∧ ((kill s 0 0).1.proc 1).killed = true ∧
        ∀ cur' s' r, fork (kill s 0 0).1 cur' = .ok (s', r) → (s'.proc 1).killed = true) ∧
      ∃ s' r, fork (kill s 0 0).1 0 = .ok (s', r) ∧ (s'.proc 1).state = .RUNNABLE ∧
        (s'.proc 1).parent = some 0 ∧ (s'.proc 1).killed = true := by
  obtain ⟨s, h₀, hu, hb, hfork⟩ : ∃ s, userinit ProcSys.zero = .ok s ∧ (s.proc 1).state = .UNUSED ∧
      (∀ p < 1, get_namespace_pid (s.proc p) (pidNsOf s 0) ≠ 0) ∧
      ∃ s' r, fork (kill s 0 0).1 0 = .ok (s', r) ∧ (s'.proc 1).state = .RUNNABLE ∧
        (s'.proc 1).parent = some 0 ∧ (s'.proc 1).killed = true :=
    ⟨_, rfl, rfl, by decide, _, _, rfl, rfl, rfl, rfl⟩
  exact ⟨s, .init h₀, by decide, hu, hb, kill_zero_marks_unused_slot (.init h₀) (by decide) hu hb, hfork⟩

end Xv6

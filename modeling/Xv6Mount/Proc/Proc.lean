import Mathlib.Data.Int.Bitwise
import Xv6Mount.Proc.Namespace

/-!
# process の表と system call（`proc.c`・`namespace.c` の `unshare`・`trap.c`）

process は `ptable.proc` の番号で指す。process が持つ pid は二つある。`pid` 欄と、
祖先の pid namespace それぞれでの pid を並べた `pids`（`PID_NAMESPACE_MAX_DEPTH` 個）である。
`get_namespace_pid` は `pids` から namespace の pid を探し、なければ 0 を返す。

このモデルが持たないもの：user memory・page table・kernel stack・開いた file・cwd・名前
（`fork` の `copyuvm` と `kalloc` は失敗しないとする）。sleep は `wait` の sleep だけを持つ。
`wait` は自分の `struct proc` の上で sleep するので、`SLEEPING` の process の chan は
その process 自身である。

C の `p->nsproxy->pid_ns` は、`nsproxy` が null の slot（一度も使われていない slot）では
user memory の番地 4 を読む。その値は kernel の pid namespace を指さないので、
どの namespace とも一致しない `none` とする（`pidNsOf`）。
-/

namespace Xv6

open Infra

/-- `enum procstate`。 -/
inductive Procstate where
  | UNUSED | EMBRYO | SLEEPING | RUNNABLE | RUNNING | ZOMBIE
deriving DecidableEq, Repr

/-- `struct pid_entry`。 -/
structure PidEntry where
  pid_ns : Option Nat
  pid : Int
deriving DecidableEq, Repr

/-- `struct proc` のうち、このモデルが読む欄。 -/
structure Proc where
  state : Procstate
  pid : Int
  parent : Option Nat
  killed : Bool
  nsproxy : Option Nat
  child_pid_namespace : Option Nat
  pids : Nat → PidEntry
  exit_state : Int

/-- process の表と、`nextpid`・`initproc`・namespace の表。 -/
structure ProcSys where
  proc : Nat → Proc
  nextpid : Int
  initproc : Option Nat
  ns : NsTables

/-- 0 で初期化された `pids`。 -/
def PidEntry.zeros : Nat → PidEntry := fun _ => ⟨none, 0⟩

/-- 0 で初期化された `struct proc`。 -/
def Proc.zero : Proc := ⟨.UNUSED, 0, none, false, none, none, PidEntry.zeros, 0⟩

/-- 起動直後の表。`nextpid = 1`。 -/
def ProcSys.zero : ProcSys := ⟨fun _ => Proc.zero, 1, none, NsTables.zero⟩

/-- process `p` を `f` で書き換える。 -/
def ProcSys.modify (s : ProcSys) (p : Nat) (f : Proc → Proc) : ProcSys :=
  { s with proc := Function.update s.proc p (f (s.proc p)) }

section modify

variable (s : ProcSys) (p : Nat) (f : Proc → Proc)

@[simp] theorem ProcSys.modify_self : (s.modify p f).proc p = f (s.proc p) := by
  simp [ProcSys.modify]

@[simp] theorem ProcSys.modify_of_ne {q : Nat} (h : q ≠ p) : (s.modify p f).proc q = s.proc q := by
  simp [ProcSys.modify, h]

@[simp] theorem ProcSys.modify_ns : (s.modify p f).ns = s.ns := rfl

@[simp] theorem ProcSys.modify_initproc : (s.modify p f).initproc = s.initproc := rfl

end modify

/-- `killed` を変えない書き換えは、どの slot の `killed` も変えない。 -/
theorem ProcSys.modify_killed {s : ProcSys} {p : Nat} {f : Proc → Proc} (hf : ∀ x, (f x).killed = x.killed)
    (q : Nat) : ((s.modify p f).proc q).killed = (s.proc q).killed := by
  by_cases hq : q = p
  · subst hq
    simp [hf]
  · simp [hq]

/-- `p->nsproxy->pid_ns`。null の `nsproxy` はどの namespace も指さない。 -/
def pidNsOf (s : ProcSys) (p : Nat) : Option Nat :=
  (s.proc p).nsproxy.bind fun j => (s.ns.nsproxy j).pid_ns

/-- `get_namespace_pid`。`pids` の中で namespace が一致する最初の entry の pid、なければ 0。 -/
def get_namespace_pid (p : Proc) (pid_namespace : Option Nat) : Int :=
  match (List.range PID_NAMESPACE_MAX_DEPTH).find? (fun i => (p.pids i).pid_ns == pid_namespace) with
  | some i => (p.pids i).pid
  | none => 0

/-- `wakeup1(chan)`。`SLEEPING` の process は自分の上で sleep しているので、`chan` だけを起こす。 -/
def wakeup1 (s : ProcSys) (chan : Option Nat) : ProcSys :=
  match chan with
  | some q => if (s.proc q).state = .SLEEPING then s.modify q fun p => { p with state := .RUNNABLE } else s
  | none => s

/-- `pidNsOf` は slot の `nsproxy` と nsproxy の表だけを読む。 -/
theorem pidNsOf_congr {s t : ProcSys} {p : Nat} (hns : t.ns.nsproxy = s.ns.nsproxy)
    (hp : (t.proc p).nsproxy = (s.proc p).nsproxy) : pidNsOf t p = pidNsOf s p := by
  unfold pidNsOf
  rw [hns, hp]

section wakeup1

variable (s : ProcSys) (chan : Option Nat)

/-- `wakeup1` は slot の `state` しか変えない。 -/
theorem wakeup1_proc (p : Nat) : ∃ st, (wakeup1 s chan).proc p = { s.proc p with state := st } := by
  unfold wakeup1
  split
  · rename_i q
    split
    · by_cases hp : p = q
      · subst hp
        exact ⟨.RUNNABLE, by simp⟩
      · exact ⟨(s.proc p).state, by simp [hp]⟩
    · exact ⟨(s.proc p).state, rfl⟩
  · exact ⟨(s.proc p).state, rfl⟩

@[simp] theorem wakeup1_ns : (wakeup1 s chan).ns = s.ns := by
  unfold wakeup1
  split
  · split <;> rfl
  · rfl

@[simp] theorem wakeup1_initproc : (wakeup1 s chan).initproc = s.initproc := by
  unfold wakeup1
  split
  · split <;> rfl
  · rfl

/-- `wakeup1(chan)` は `chan` でない process の `state` を変えない。 -/
theorem wakeup1_state_of_ne {p : Nat} (h : chan ≠ some p) :
    ((wakeup1 s chan).proc p).state = (s.proc p).state := by
  unfold wakeup1
  split
  · rename_i q
    have hpq : p ≠ q := fun hpq => h (hpq ▸ rfl)
    split
    · simp [hpq]
    · rfl
  · rfl

end wakeup1

/-! ## process の確保 -/

/-- `allocproc`。`UNUSED` の最初の slot を `EMBRYO` にして、`nextpid` を割り当てる。 -/
def allocproc (s : ProcSys) : Option (ProcSys × Nat) :=
  match (List.range NPROC).find? (fun p => (s.proc p).state == .UNUSED) with
  | some p =>
    some ({ s.modify p (fun q => { q with state := .EMBRYO, pid := s.nextpid }) with
      nextpid := s.nextpid + 1 }, p)
  | none => none

/-- `userinit`。最初の process を作り、新しい root の pid namespace で pid を割り当てる。 -/
def userinit (s : ProcSys) : Except Stop ProcSys := do
  let some (s, p) := allocproc s | throw .fault
  let s := { s with initproc := some p }
  let (t, j) ← create_nsproxy s.ns none
  let s := { s.modify p (fun q => { q with nsproxy := some j }) with ns := t }
  let some ns := pidNsOf s p | throw .fault
  let (t, pid) := alloc_new_pid s.ns ns
  -- `init_pids0`
  let s := { s.modify p (fun q => { q with pid := pid, pids := Function.update q.pids 0 ⟨some ns, pid⟩ })
    with ns := t }
  pure (s.modify p fun q => { q with state := .RUNNABLE })

/-! ## `fork` -/

/--
`set_up_child_pid_namespace`。親が子のための pid namespace を用意していれば、それを指す
nsproxy を新しく作る。なければ親の nsproxy を共有する。子の pid namespace を返す。
-/
def set_up_child_pid_namespace (s : ProcSys) (cur np : Nat) : Except Stop (ProcSys × Option Nat) :=
  match (s.proc cur).child_pid_namespace with
  | some c => do
    let (t, j) ← create_nsproxy s.ns (some c)
    pure ({ s.modify np (fun q => { q with nsproxy := some j }) with ns := t }, some c)
  | none =>
    match (s.proc cur).nsproxy with
    | some j =>
      let s := { s with ns := get_nsproxy s.ns j }
      let s := s.modify np fun q => { q with nsproxy := some j }
      pure (s, (s.ns.nsproxy j).pid_ns)
    | none => throw .fault

/--
`set_up_pids` の loop。`i` 段目で namespace `ns` の pid を割り当て、親へ進む。
`k` は残りの段数で、段を使い切っても親が残れば panic する。
-/
def setUpPidsLoop (np : Nat) : Nat → Nat → Option Nat → ProcSys → Except Stop ProcSys
  | _, _, none, _ => throw .fault
  | 0, _, some _, _ => throw (.panic "fork: There are too many nested pid_namespaces!")
  | k + 1, i, some ns, s =>
    let (t, pid) := alloc_new_pid s.ns ns
    let s := { s.modify np (fun q => { q with pids := Function.update q.pids i ⟨some ns, pid⟩ }) with ns := t }
    match (t.pid_namespaces ns).parent with
    | none => pure s
    | some p => setUpPidsLoop np k (i + 1) (some p) s

/-- `set_up_pids`。 -/
def set_up_pids (s : ProcSys) (np : Nat) (pid_namespace : Option Nat) : Except Stop ProcSys :=
  setUpPidsLoop np PID_NAMESPACE_MAX_DEPTH 0 pid_namespace s

/-- `fork`。返り値は呼んだ process の namespace での子の pid。slot がなければ -1。 -/
def fork (s : ProcSys) (cur : Nat) : Except Stop (ProcSys × Int) := do
  let some (s, np) := allocproc s | pure (s, -1)
  let s := s.modify np fun q => { q with parent := some cur }
  let (s, child_pid_namespace) ← set_up_child_pid_namespace s cur np
  let s ← set_up_pids s np child_pid_namespace
  let s := s.modify np fun q => { q with pid := (q.pids 0).pid }
  let pid := get_namespace_pid (s.proc np) (pidNsOf s cur)
  pure (s.modify np fun q => { q with state := .RUNNABLE }, pid)

/-! ## `exit` -/

/-- `kill_process`。 -/
def kill_process (p : Proc) (new_parent : Option Nat) : Proc :=
  { p with killed := true, parent := new_parent,
           state := if p.state = .SLEEPING then .RUNNABLE else p.state }

/-- `exit` の最初の loop。namespace `ns` で pid 1 を持つ最後の process。 -/
def findPid1 (s : ProcSys) (ns : Option Nat) : Option Nat :=
  (List.range NPROC).foldl (fun r p => if get_namespace_pid (s.proc p) ns = 1 then some p else r) none

/-- pid 1 の process の `exit`：同じ namespace のほかの process をすべて kill する。 -/
def killNamespace (s : ProcSys) (cur : Nat) (ns : Option Nat) : ProcSys :=
  (List.range NPROC).foldl (fun s p =>
    if p ≠ cur ∧ pidNsOf s p = ns then s.modify p fun q => kill_process q (s.proc cur).parent
    else s) s

/-- pid 1 でない process の `exit`：子を `reaper` に渡す。`ZOMBIE` の子があれば `initproc` を起こす。 -/
def reparent (s : ProcSys) (cur : Nat) (reaper : Option Nat) : ProcSys :=
  (List.range NPROC).foldl (fun s p =>
    if (s.proc p).parent = some cur then
      let s := s.modify p fun q => { q with parent := reaper }
      if (s.proc p).state = .ZOMBIE then wakeup1 s s.initproc else s
    else s) s

theorem kill_process_idem (p : Proc) (np : Option Nat) :
    kill_process (kill_process p np) np = kill_process p np := by
  by_cases h : p.state = .SLEEPING <;> simp [kill_process, h]

/--
`killNamespace` の後の slot `p`。元のままか、`cur` でなく namespace が `ns` の slot で
`kill_process` されたかである。`nsproxy`・表・`cur` の slot は変わらない。
-/
theorem killNamespace_proc (s : ProcSys) (cur : Nat) (ns : Option Nat) (p : Nat) :
    (killNamespace s cur ns).ns = s.ns ∧ (killNamespace s cur ns).initproc = s.initproc ∧
      (killNamespace s cur ns).proc p = s.proc p ∨
    ((killNamespace s cur ns).ns = s.ns ∧ (killNamespace s cur ns).initproc = s.initproc ∧
      p ≠ cur ∧ pidNsOf s p = ns ∧
      (killNamespace s cur ns).proc p = kill_process (s.proc p) (s.proc cur).parent) := by
  -- fold の途中の状態で、表・`nsproxy`・`cur` の slot が元のままであることを持ち回る
  let M : ProcSys → Prop := fun t => t.ns = s.ns ∧ t.initproc = s.initproc ∧
    (∀ q, (t.proc q).nsproxy = (s.proc q).nsproxy) ∧ t.proc cur = s.proc cur ∧
    (t.proc p = s.proc p ∨
      (p ≠ cur ∧ pidNsOf s p = ns ∧ t.proc p = kill_process (s.proc p) (s.proc cur).parent))
  have hM : M (killNamespace s cur ns) := by
    unfold killNamespace
    refine List.foldlRecOn _ _ ⟨rfl, rfl, fun _ => rfl, rfl, .inl rfl⟩ fun t ht q _ => ?_
    obtain ⟨hns, hinit, hnsp, hcur, hp⟩ := ht
    split
    · rename_i hq
      have hpq : pidNsOf s q = ns := (pidNsOf_congr (congrArg NsTables.nsproxy hns) (hnsp q)).symm.trans hq.2
      refine ⟨hns, hinit, fun r => ?_, ?_, ?_⟩
      · by_cases hr : r = q
        · subst hr; simp [kill_process, hnsp]
        · simp [hr, hnsp]
      · simp [Ne.symm hq.1, hcur]
      · by_cases hpq' : p = q
        · subst hpq'
          refine .inr ⟨hq.1, hpq, ?_⟩
          rcases hp with hp | ⟨-, -, hp⟩
          · simp [hp, hcur]
          · simp [hp, hcur, kill_process_idem]
        · simpa [hpq'] using hp
    · exact ⟨hns, hinit, hnsp, hcur, hp⟩
  obtain ⟨hns, hinit, -, -, hp⟩ := hM
  rcases hp with hp | hp
  · exact .inl ⟨hns, hinit, hp⟩
  · exact .inr ⟨hns, hinit, hp⟩

/-- `reparent` は各 slot の `state` と `parent` しか変えず、表と `initproc` を変えない。 -/
theorem reparent_proc (s : ProcSys) (cur : Nat) (reaper : Option Nat) (p : Nat) :
    (reparent s cur reaper).ns = s.ns ∧ (reparent s cur reaper).initproc = s.initproc ∧
      ∃ st par, (reparent s cur reaper).proc p = { s.proc p with state := st, parent := par } := by
  unfold reparent
  refine List.foldlRecOn (motive := fun t : ProcSys => t.ns = s.ns ∧ t.initproc = s.initproc ∧
      ∃ st par, t.proc p = { s.proc p with state := st, parent := par })
    _ _ ⟨rfl, rfl, (s.proc p).state, (s.proc p).parent, rfl⟩ fun t ht q _ => ?_
  obtain ⟨hns, hinit, st, par, hp⟩ := ht
  dsimp only
  -- `q` の親を替え、`ZOMBIE` なら `initproc` を起こす
  have hq : (t.modify q fun x => { x with parent := reaper }).ns = s.ns ∧
      (t.modify q fun x => { x with parent := reaper }).initproc = s.initproc ∧
      ∃ st par, (t.modify q fun x => { x with parent := reaper }).proc p =
        { s.proc p with state := st, parent := par } := by
    refine ⟨hns, hinit, ?_⟩
    by_cases hpq : p = q
    · subst hpq
      exact ⟨st, reaper, by simp [hp]⟩
    · exact ⟨st, par, by simp [hpq, hp]⟩
  split
  · split
    · obtain ⟨hns', hinit', st', par', hp'⟩ := hq
      obtain ⟨st'', hw⟩ := wakeup1_proc (t.modify q fun x => { x with parent := reaper })
        (t.modify q fun x => { x with parent := reaper }).initproc p
      refine ⟨?_, ?_, st'', par', by rw [hw, hp']⟩
      · rw [wakeup1_ns]
        exact hns'
      · rw [wakeup1_initproc]
        exact hinit'
    · exact hq
  · exact ⟨hns, hinit, st, par, hp⟩

/-- `reparent` が起こすのは `initproc` だけである。 -/
theorem reparent_state_of_ne (s : ProcSys) (cur : Nat) (reaper : Option Nat) {p : Nat}
    (h : s.initproc ≠ some p) : ((reparent s cur reaper).proc p).state = (s.proc p).state := by
  unfold reparent
  refine (List.foldlRecOn (motive := fun t : ProcSys => t.initproc = s.initproc ∧ (t.proc p).state = (s.proc p).state)
    _ _ ⟨rfl, rfl⟩ fun t ht q _ => ?_).2
  obtain ⟨hinit, hp⟩ := ht
  dsimp only
  have hq : ((t.modify q fun x => { x with parent := reaper }).proc p).state = (s.proc p).state := by
    by_cases hpq : p = q
    · subst hpq; simp [hp]
    · simp [hpq, hp]
  split
  · split
    · refine ⟨by simp [hinit], ?_⟩
      rw [wakeup1_state_of_ne _ _ (by simpa [hinit] using h)]
      exact hq
    · exact ⟨hinit, hq⟩
  · exact ⟨hinit, hp⟩

/-- `exit`。戻らず、process は `ZOMBIE` になる。 -/
def exit (s : ProcSys) (cur : Nat) (exit_state : Int) : Except Stop ProcSys := do
  let s := s.modify cur fun q => { q with exit_state := exit_state }
  if s.initproc = some cur then throw (.panic "init exiting")
  let some ns := pidNsOf s cur | throw .fault
  let proc_with_pid_1 := findPid1 s (some ns)
  if proc_with_pid_1 = none ∧ (s.ns.pid_namespaces ns).is_pid_1_killed = false then
    throw (.panic "can not find process with pid 1 in target namespace")
  let some j := (s.proc cur).nsproxy | throw .fault
  let s := { s with ns := ← put_nsproxy s.ns j }
  let s := wakeup1 s (s.proc cur).parent
  let s :=
    if (s.proc cur).pid = 1 then
      let s := killNamespace s cur (some ns)
      { s with ns := s.ns.modifyPidNs ns fun n => { n with is_pid_1_killed := true } }
    else reparent s cur proc_with_pid_1
  let s ← match (s.proc cur).child_pid_namespace with
    | some c => do pure { s with ns := ← remove_from_pid_namespace s.ns c }
    | none => pure s
  pure (s.modify cur fun q => { q with state := .ZOMBIE })

/--
成功した `exit` の段。`exit_state` を書いた状態を `s₁` として、nsproxy を放し（`t`）、親を起こし
（`s₂`）、pid 1 なら namespace を kill して、そうでなければ子を渡し（`s₃`）、子のための namespace を
放し（`s₄`）、最後に `ZOMBIE` になる。
-/
theorem exit_cases {s s' : ProcSys} {cur : Nat} {st : Int} (h : exit s cur st = .ok s') :
    ∃ ns j t s₂ s₃ s₄,
      s.initproc ≠ some cur ∧ pidNsOf s cur = some ns ∧ (s.proc cur).nsproxy = some j ∧
      put_nsproxy s.ns j = .ok t ∧
      s₂ = wakeup1 { s.modify cur (fun q => { q with exit_state := st }) with ns := t } (s.proc cur).parent ∧
      (((s.proc cur).pid = 1 ∧ s₃ = { killNamespace s₂ cur (some ns) with
          ns := (killNamespace s₂ cur (some ns)).ns.modifyPidNs ns fun n => { n with is_pid_1_killed := true } }) ∨
        ((s.proc cur).pid ≠ 1 ∧
          s₃ = reparent s₂ cur (findPid1 (s.modify cur fun q => { q with exit_state := st }) (some ns)))) ∧
      ((∃ c u, (s₃.proc cur).child_pid_namespace = some c ∧ remove_from_pid_namespace s₃.ns c = .ok u ∧
          s₄ = { s₃ with ns := u }) ∨
        ((s₃.proc cur).child_pid_namespace = none ∧ s₄ = s₃)) ∧
      s' = s₄.modify cur fun q => { q with state := .ZOMBIE } := by
  unfold exit at h
  generalize hs₁ : s.modify cur (fun q => { q with exit_state := st }) = s₁ at h
  -- `s₁` は `cur` の `exit_state` しか違わない
  have hcur : (s₁.proc cur).nsproxy = (s.proc cur).nsproxy ∧ (s₁.proc cur).parent = (s.proc cur).parent ∧
      (s₁.proc cur).pid = (s.proc cur).pid := by
    subst hs₁
    simp
  have hns₁ : s₁.ns = s.ns := by subst hs₁; rfl
  have hinit : s₁.initproc = s.initproc := by subst hs₁; rfl
  simp only at h
  split at h
  · simp at h
  rename_i hi
  split at h
  · rename_i ns hns
    split at h
    · simp at h
    split at h
    · rename_i j hj
      obtain ⟨t, ht, h⟩ := bind_eq_ok.mp h
      generalize hs₂ : wakeup1 { s₁ with ns := t } (s₁.proc cur).parent = s₂ at h
      generalize hs₃ : (if (s₂.proc cur).pid = 1 then _ else _) = s₃ at h
      have hpid : (s₂.proc cur).pid = (s.proc cur).pid := by
        obtain ⟨_, hw⟩ := wakeup1_proc { s₁ with ns := t } (s₁.proc cur).parent cur
        rw [← hs₂, hw]
        exact hcur.2.2
      refine ⟨ns, j, t, s₂, s₃, ?_⟩
      have hhead : s.initproc ≠ some cur ∧ pidNsOf s cur = some ns ∧ (s.proc cur).nsproxy = some j ∧
          put_nsproxy s.ns j = .ok t ∧
          s₂ = wakeup1 { s₁ with ns := t } (s.proc cur).parent := by
        refine ⟨hinit ▸ hi, ?_, hcur.1 ▸ hj, hns₁ ▸ ht, ?_⟩
        · rw [← hns, pidNsOf_congr (by rw [hns₁]) hcur.1]
        · rw [← hs₂, ← hcur.2.1]
      -- pid 1 かどうかで二つに分かれる
      have hbranch : ((s.proc cur).pid = 1 ∧ s₃ = { killNamespace s₂ cur (some ns) with
            ns := (killNamespace s₂ cur (some ns)).ns.modifyPidNs ns fun n => { n with is_pid_1_killed := true } }) ∨
          ((s.proc cur).pid ≠ 1 ∧
            s₃ = reparent s₂ cur (findPid1 s₁ (some ns))) := by
        by_cases hp1 : (s.proc cur).pid = 1
        · rw [hpid, if_pos hp1] at hs₃
          exact .inl ⟨hp1, hs₃.symm⟩
        · rw [hpid, if_neg hp1] at hs₃
          exact .inr ⟨hp1, hs₃.symm⟩
      split at h
      · rename_i c hc
        obtain ⟨u, hu, h⟩ := bind_eq_ok.mp h
        simp only [pure_eq_ok, ok_bind, Except.ok.injEq] at h
        exact ⟨{ s₃ with ns := u }, hhead.1, hhead.2.1, hhead.2.2.1, hhead.2.2.2.1, hhead.2.2.2.2, hbranch,
          .inl ⟨c, u, hc, hu, rfl⟩, h.symm⟩
      · rename_i hc
        simp only [pure_eq_ok, ok_bind, Except.ok.injEq] at h
        exact ⟨s₃, hhead.1, hhead.2.1, hhead.2.2.1, hhead.2.2.2.1, hhead.2.2.2.2, hbranch,
          .inr ⟨hc, rfl⟩, h.symm⟩
    · simp at h
  · simp at h

/-! ## `wait` と `kill` -/

/-- `wait` が回収した `ZOMBIE` の slot を空きに戻す。`nsproxy` は残る。 -/
def Proc.reap (p : Proc) : Proc :=
  { p with pid := 0, pids := PidEntry.zeros, parent := none, killed := false, state := .UNUSED,
           child_pid_namespace := none, exit_state := 0 }

/--
`wait`。`ZOMBIE` の子を一つ回収してその pid を返す。子がないか kill されていれば -1。
子がみな生きていれば自分の上で sleep し、`none` を返す。起こされた process は `wait` を呼び直す。
-/
def wait (s : ProcSys) (cur : Nat) : ProcSys × Option Int :=
  let kids := (List.range NPROC).filter fun p => (s.proc p).parent = some cur
  match kids.find? (fun p => (s.proc p).state == .ZOMBIE) with
  | some p =>
    let pid := get_namespace_pid (s.proc p) (pidNsOf s cur)
    (s.modify p Proc.reap, some pid)
  | none =>
    if kids = [] ∨ (s.proc cur).killed then (s, some (-1))
    else (s.modify cur fun q => { q with state := .SLEEPING }, none)

/-- `kill(pid)`。呼んだ process の namespace で pid が一致する最初の process を kill する。 -/
def kill (s : ProcSys) (cur : Nat) (pid : Int) : ProcSys × Int :=
  let pid_ns := pidNsOf s cur
  match (List.range NPROC).find? (fun p => get_namespace_pid (s.proc p) pid_ns == pid) with
  | some p => (s.modify p fun q => kill_process q q.parent, 0)
  | none => (s, -1)

/-! ## `unshare` -/

/-- `unshare` の `PID_NS` の部分。子のための pid namespace を今の pid namespace の下に作る。 -/
def unsharePidNs (s : ProcSys) (cur : Nat) : Except Stop ProcSys := do
  if (s.proc cur).child_pid_namespace ≠ none then throw (.panic "pid_namespace already unshared\n")
  let some ns := pidNsOf s cur | throw .fault
  if !check_is_pid_namespace_legal (s.ns.pid_namespaces ns) then
    throw (.panic "no depth available for new child pid_namespace\n")
  let (t, c) ← create_new_pid_namespace s.ns (some ns)
  pure { s.modify cur (fun q => { q with child_pid_namespace := some c }) with ns := t }

/-- `unshare(flags)`。nsproxy を作り直して古い nsproxy を放す。`PID_NS` なら `unsharePidNs`。 -/
def unshare (s : ProcSys) (cur : Nat) (flags : Int) : Except Stop (ProcSys × Int) := do
  let some old_ns := (s.proc cur).nsproxy | throw .fault
  if (s.ns.nsproxy old_ns).count < 1 then throw (.panic "assert fails. namespace.c: 86\n")
  let (t, j) ← create_nsproxy s.ns (s.ns.nsproxy old_ns).pid_ns
  let s := { s.modify cur (fun q => { q with nsproxy := some j }) with ns := t }
  let s := { s with ns := ← put_nsproxy s.ns old_ns }
  if Int.land flags PID_NS > 0 then
    let s ← unsharePidNs s cur
    pure (s, 0)
  else pure (s, 0)

/-! ## system call の入口 -/

/-- process の system call。どれも呼んだ process `cur` を持つ。 -/
inductive ProcCall where
  | fork (cur : Nat)
  | exit (cur : Nat) (status : Int)
  | wait (cur : Nat)
  | kill (cur : Nat) (pid : Int)
  | unshare (cur : Nat) (flags : Int)

/-- 呼んだ process。 -/
def ProcCall.cur : ProcCall → Nat
  | .fork p | .exit p _ | .wait p | .kill p _ | .unshare p _ => p

/-- system call の本体を走らせる。返り値は捨てる。 -/
def procCall (s : ProcSys) : ProcCall → Except Stop ProcSys
  | .fork cur => (fork s cur).map (·.1)
  | .exit cur st => exit s cur st
  | .wait cur => .ok (wait s cur).1
  | .kill cur pid => .ok (kill s cur pid).1
  | .unshare cur flags => (unshare s cur flags).map (·.1)

/--
`trap` の system call の入口。kill された process は本体の前と後で `exit(0)` する。
`exit` した process と sleep した process は戻らないので、後の検査はない。
-/
def syscall (s : ProcSys) (c : ProcCall) : Except Stop ProcSys :=
  if (s.proc c.cur).killed then exit s c.cur 0
  else do
    let s ← procCall s c
    if (s.proc c.cur).killed ∧ (s.proc c.cur).state = .RUNNABLE then exit s c.cur 0 else pure s

/-- scheduler が `cur` を走らせる。`RUNNABLE` でない process は走らず、待つ。 -/
def runProc (s : ProcSys) (c : ProcCall) : Except Stop ProcSys :=
  if c.cur < NPROC ∧ (s.proc c.cur).state = .RUNNABLE then syscall s c else throw .sleep

/-- 起動した kernel：`userinit` の後の表。 -/
def ProcInit (s : ProcSys) : Prop := userinit ProcSys.zero = .ok s

/-- `userinit` から system call を重ねて到達できる状態。 -/
def ProcReach : ProcSys → Prop := Reach ProcInit fun s s' => ∃ c, runProc s c = .ok s'

/-- `userinit` の後に system call の列を回して得た状態は、到達できる。 -/
theorem ProcReach.of_runList {s₀ s : ProcSys} {cs : List ProcCall} (h₀ : userinit ProcSys.zero = .ok s₀)
    (h : runList runProc s₀ cs = .ok s) : ProcReach s :=
  Reach.runList (fun _ c _ hc => ⟨c, hc⟩) cs (.init h₀) h

end Xv6

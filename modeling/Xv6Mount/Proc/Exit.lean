import Xv6Mount.Proc.Proc

/-!
# `exit` が他の process に及ぼすもの

`exit` は `ptable.lock` を持ったまま次を行う（`exit_cases`）。nsproxy を放す。親を起こす。
pid 1 の process なら、自分と同じ namespace を `nsproxy` に持つ slot をすべて kill し、親を自分の親に
替える。そうでなければ子を namespace の pid 1 の process に渡し、渡した子が `ZOMBIE` なら
`initproc` を起こす。

そこから三つのことが言える。

* kill されるのは、`nsproxy` が自分と同じ namespace を指す slot だけである
  （`exit_kills_only_own_namespace`）。子の namespace にいる process は、自分の namespace でも pid を
  持つが kill されない（`nested_child_survives_pid1_exit`）
* pid 1 の branch は、ほかの namespace の process の親を替えない
  （`exit_pid1_keeps_foreign_parents`）。子の namespace にいる子の親は `ZOMBIE` になった process の
  ままで、それが回収されると `UNUSED` の slot になる（`orphan_parent_is_reaped`）
* pid 1 でない process の `exit` が起こすのは、自分の親と `initproc` だけである
  （`exit_wakes_only_parent_and_init`）。子の namespace で `ZOMBIE` の孫を渡された pid 1 の process は、
  `wait` で sleep したまま起こされない（`waiting_reaper_misses_zombie`）
-/

namespace Xv6

open Infra

section exit

variable {s s' : ProcSys} {cur : Nat} {st : Int}

/-- nsproxy を放して親を起こした後で namespace `ns` にいる slot は、元から `ns` にいた。 -/
theorem pidNsOf_of_put_nsproxy {t : NsTables} {j : Nat} (ht : put_nsproxy s.ns j = .ok t)
    (chan : Option Nat) {p ns : Nat}
    (h : pidNsOf (wakeup1 { s.modify cur (fun q => { q with exit_state := st }) with ns := t } chan) p =
      some ns) : pidNsOf s p = some ns := by
  obtain ⟨_, hw⟩ := wakeup1_proc { s.modify cur (fun q => { q with exit_state := st }) with ns := t } chan p
  have hnsp : ((wakeup1 { s.modify cur (fun q => { q with exit_state := st }) with ns := t } chan).proc p).nsproxy =
      (s.proc p).nsproxy := by
    rw [hw]
    by_cases hpc : p = cur
    · subst hpc; simp
    · simp [hpc]
  unfold pidNsOf at h ⊢
  rw [hnsp, wakeup1_ns] at h
  cases hk : (s.proc p).nsproxy with
  | none => simp [hk] at h
  | some k =>
    simp only [hk, Option.bind_some] at h ⊢
    -- `put_nsproxy` は `pid_ns` を null にするだけである
    rcases put_nsproxy_pid_ns ht k with hk' | hk'
    · rw [← hk']
      exact h
    · simp [hk'] at h

/-- nsproxy を放して親を起こしても、`killed` と `parent` は変わらない。 -/
theorem exit_wakeup_proc {t : NsTables} (chan : Option Nat) (p : Nat) :
    ((wakeup1 { s.modify cur (fun q => { q with exit_state := st }) with ns := t } chan).proc p).killed =
      (s.proc p).killed ∧
    ((wakeup1 { s.modify cur (fun q => { q with exit_state := st }) with ns := t } chan).proc p).parent =
      (s.proc p).parent := by
  obtain ⟨_, hw⟩ := wakeup1_proc { s.modify cur (fun q => { q with exit_state := st }) with ns := t } chan p
  rw [hw]
  by_cases hpc : p = cur
  · subst hpc; simp
  · simp [hpc]

/-- `exit` の最後の二段（子の namespace を放し、`ZOMBIE` になる）は、`cur` でない slot を変えない。 -/
theorem exit_tail_proc {s₃ s₄ : ProcSys}
    (hcp : (∃ c u, (s₃.proc cur).child_pid_namespace = some c ∧ remove_from_pid_namespace s₃.ns c = .ok u ∧
        s₄ = { s₃ with ns := u }) ∨ ((s₃.proc cur).child_pid_namespace = none ∧ s₄ = s₃))
    (hs' : s' = s₄.modify cur fun q => { q with state := .ZOMBIE }) {p : Nat} (hpc : p ≠ cur) :
    s'.proc p = s₃.proc p := by
  rw [hs', ProcSys.modify_of_ne _ _ _ hpc]
  rcases hcp with ⟨c, u, -, -, hs₄⟩ | ⟨-, hs₄⟩
  · rw [hs₄]
  · rw [hs₄]

/--
**`exit` が kill するのは自分の namespace の slot だけ。** `exit` の後で kill されている slot は、
前から kill されていたか、`cur` でなく `nsproxy` が `cur` と同じ namespace を指していた。
-/
theorem exit_kills_only_own_namespace (h : exit s cur st = .ok s') {p : Nat}
    (hk : (s'.proc p).killed = true) :
    (s.proc p).killed = true ∨ (p ≠ cur ∧ pidNsOf s p = pidNsOf s cur) := by
  obtain ⟨ns, j, t, s₂, s₃, s₄, -, hns, -, ht, hs₂, hbr, hcp, hs'⟩ := exit_cases h
  have hk₂ : (s₂.proc p).killed = (s.proc p).killed := by
    rw [hs₂]
    exact (exit_wakeup_proc _ p).1
  -- 子の namespace を放す段と `ZOMBIE` にする段は `killed` を変えない
  have hk₃ : (s₃.proc p).killed = true := by
    have hk₄ : (s₄.proc p).killed = true := by
      rw [hs'] at hk
      by_cases hpc : p = cur
      · rw [hpc] at hk ⊢
        simpa using hk
      · simpa [hpc] using hk
    rcases hcp with ⟨c, u, -, -, hs₄⟩ | ⟨-, hs₄⟩
    · rw [hs₄] at hk₄
      exact hk₄
    · rw [hs₄] at hk₄
      exact hk₄
  rcases hbr with ⟨-, hs₃⟩ | ⟨-, hs₃⟩
  · -- pid 1 の branch：kill されたのは、`s₂` で namespace が `ns` の、`cur` でない slot
    rw [hs₃] at hk₃
    rcases killNamespace_proc s₂ cur (some ns) p with ⟨-, -, hq⟩ | ⟨-, -, hne, hpn, -⟩
    · left
      rw [← hk₂, ← hq]
      exact hk₃
    · right
      rw [hs₂] at hpn
      exact ⟨hne, (pidNsOf_of_put_nsproxy ht _ hpn).trans hns.symm⟩
  · left
    rw [hs₃] at hk₃
    obtain ⟨-, -, _, _, hq⟩ := reparent_proc s₂ cur (findPid1 (s.modify cur fun q => { q with exit_state := st }) (some ns)) p
    rw [← hk₂]
    simpa [hq] using hk₃

/--
**pid 1 の `exit` は、ほかの namespace の process の親を替えない。** 子の namespace にいる子も、
親は `exit` した process のままである。
-/
theorem exit_pid1_keeps_foreign_parents (h : exit s cur st = .ok s') (h1 : (s.proc cur).pid = 1) {p : Nat}
    (hp : pidNsOf s p ≠ pidNsOf s cur) : (s'.proc p).parent = (s.proc p).parent := by
  obtain ⟨ns, j, t, s₂, s₃, s₄, -, hns, -, ht, hs₂, hbr, hcp, hs'⟩ := exit_cases h
  have hpc : p ≠ cur := fun hpc => hp (hpc ▸ rfl)
  rw [exit_tail_proc hcp hs' hpc]
  have hpar₂ : (s₂.proc p).parent = (s.proc p).parent := by
    rw [hs₂]
    exact (exit_wakeup_proc _ p).2
  rcases hbr with ⟨-, hs₃⟩ | ⟨h1', -⟩
  · rw [hs₃]
    rcases killNamespace_proc s₂ cur (some ns) p with ⟨-, -, hq⟩ | ⟨-, -, -, hpn, -⟩
    · rw [hq]
      exact hpar₂
    · -- `s₂` で namespace が `ns` なら、元から `cur` と同じ namespace にいた
      rw [hs₂] at hpn
      exact absurd ((pidNsOf_of_put_nsproxy ht _ hpn).trans hns.symm) hp
  · exact absurd h1 h1'

/--
**pid 1 でない process の `exit` が起こすのは、親と `initproc` だけである。** それ以外の process の
`state` は変わらない。子を渡された namespace の pid 1 の process も起こされない。
-/
theorem exit_wakes_only_parent_and_init (h : exit s cur st = .ok s') (h1 : (s.proc cur).pid ≠ 1)
    {p : Nat} (hpc : p ≠ cur) (hpar : (s.proc cur).parent ≠ some p) (hinit : s.initproc ≠ some p) :
    (s'.proc p).state = (s.proc p).state := by
  obtain ⟨ns, j, t, s₂, s₃, s₄, -, -, -, -, hs₂, hbr, hcp, hs'⟩ := exit_cases h
  rw [exit_tail_proc hcp hs' hpc]
  rcases hbr with ⟨h1', -⟩ | ⟨-, hs₃⟩
  · exact absurd h1' h1
  · have hinit₂ : s₂.initproc ≠ some p := by
      rw [hs₂, wakeup1_initproc]
      exact hinit
    rw [hs₃, reparent_state_of_ne _ _ _ hinit₂, hs₂, wakeup1_state_of_ne _ _ hpar]
    simp [hpc]

end exit

/-! ## 子の namespace で起きること -/

set_option maxRecDepth 8000 in
/--
init process が `unshare(PID_NS)` して A（slot 1）を作る。A は新しい namespace の pid 1 である。
A が `unshare(PID_NS)` して B（slot 2）を作ると、B は A の namespace で pid 2 を持つが、B の
`nsproxy` は A の子の namespace を指す。A の `exit` は B を kill しない。
-/
theorem nested_child_survives_pid1_exit :
    ∃ s s', ProcReach s ∧ exit s 1 0 = .ok s' ∧ (s.proc 1).pid = 1 ∧ (s.proc 2).state = .RUNNABLE ∧
      get_namespace_pid (s.proc 2) (pidNsOf s 1) = 2 ∧ pidNsOf s 2 ≠ pidNsOf s 1 ∧
      (s'.proc 2).killed = false := by
  obtain ⟨s₀, s, s', h₀, hs, he, hpid, hst, hgnp, hns, hk⟩ : ∃ s₀ s s', userinit ProcSys.zero = .ok s₀ ∧
      runList runProc s₀ [.unshare 0 1, .fork 0, .unshare 1 1, .fork 1] = .ok s ∧ exit s 1 0 = .ok s' ∧
      (s.proc 1).pid = 1 ∧ (s.proc 2).state = .RUNNABLE ∧ get_namespace_pid (s.proc 2) (pidNsOf s 1) = 2 ∧
      pidNsOf s 2 ≠ pidNsOf s 1 ∧ (s.proc 2).killed = false :=
    ⟨_, _, _, rfl, rfl, rfl, rfl, rfl, by decide, by decide, rfl⟩
  refine ⟨s, s', .of_runList h₀ hs, he, hpid, hst, hgnp, hns, ?_⟩
  cases hk' : (s'.proc 2).killed
  · rfl
  · rcases exit_kills_only_own_namespace he hk' with h | ⟨-, h⟩
    · rw [hk] at h
      cases h
    · exact absurd h hns

set_option maxRecDepth 8000 in
/--
同じ run で A が `exit` すると、B の親は `ZOMBIE` になった A のままである。init process が `wait` で
A を回収すると、B の親は `UNUSED` の slot 1 になり、B は生きている。
-/
theorem orphan_parent_is_reaped :
    ∃ s s' s'', ProcReach s ∧ exit s 1 0 = .ok s' ∧ (s.proc 1).pid = 1 ∧ pidNsOf s 2 ≠ pidNsOf s 1 ∧
      (s.proc 2).parent = some 1 ∧ (s'.proc 2).parent = some 1 ∧ (s'.proc 1).state = .ZOMBIE ∧
      runProc s' (.wait 0) = .ok s'' ∧ (s''.proc 1).state = .UNUSED ∧ (s''.proc 2).parent = some 1 ∧
      (s''.proc 2).state = .RUNNABLE := by
  obtain ⟨s₀, s, s', s'', h₀, hs, he, hpid, hns, hpar, hz, hw, hu, hpar'', hst⟩ :
      ∃ s₀ s s' s'', userinit ProcSys.zero = .ok s₀ ∧
      runList runProc s₀ [.unshare 0 1, .fork 0, .unshare 1 1, .fork 1] = .ok s ∧ exit s 1 0 = .ok s' ∧
      (s.proc 1).pid = 1 ∧ pidNsOf s 2 ≠ pidNsOf s 1 ∧ (s.proc 2).parent = some 1 ∧
      (s'.proc 1).state = .ZOMBIE ∧ runProc s' (.wait 0) = .ok s'' ∧ (s''.proc 1).state = .UNUSED ∧
      (s''.proc 2).parent = some 1 ∧ (s''.proc 2).state = .RUNNABLE :=
    ⟨_, _, _, _, rfl, rfl, rfl, rfl, by decide, rfl, rfl, rfl, rfl, rfl, rfl⟩
  exact ⟨s, s', s'', .of_runList h₀ hs, he, hpid, hns, hpar,
    (exit_pid1_keeps_foreign_parents he hpid hns).trans hpar, hz, hw, hu, hpar'', hst⟩

set_option maxRecDepth 8000 in
/--
子の namespace で R（slot 1、pid 1）→ Q → P → Z と fork し、Z が `exit` して `ZOMBIE` になる。
R は `wait` で sleep する。P が `exit` すると Z は R に渡されるが、起こされるのは P の親 Q と
`initproc` だけで、R は `ZOMBIE` の子を持ったまま sleep している。
-/
theorem waiting_reaper_misses_zombie :
    ∃ s s', ProcReach s ∧ exit s 3 0 = .ok s' ∧ (s.proc 1).state = .SLEEPING ∧
      (s.proc 4).state = .ZOMBIE ∧ (s'.proc 4).parent = some 1 ∧ (s'.proc 4).state = .ZOMBIE ∧
      (s'.proc 1).state = .SLEEPING := by
  obtain ⟨s₀, s, s', h₀, hs, he, hsl, hz, hpar4, hz', hpid, hpar3, hinit⟩ :
      ∃ s₀ s s', userinit ProcSys.zero = .ok s₀ ∧
      runList runProc s₀ [.unshare 0 1, .fork 0, .fork 1, .fork 2, .fork 3, .exit 4 0, .wait 1] = .ok s ∧
      exit s 3 0 = .ok s' ∧ (s.proc 1).state = .SLEEPING ∧ (s.proc 4).state = .ZOMBIE ∧
      (s'.proc 4).parent = some 1 ∧ (s'.proc 4).state = .ZOMBIE ∧
      (s.proc 3).pid ≠ 1 ∧ (s.proc 3).parent ≠ some 1 ∧ s.initproc ≠ some 1 :=
    ⟨_, _, _, rfl, rfl, rfl, rfl, rfl, rfl, rfl, by decide, by decide, by decide⟩
  refine ⟨s, s', .of_runList h₀ hs, he, hsl, hz, hpar4, hz', ?_⟩
  rw [exit_wakes_only_parent_and_init he hpid (by decide) hpar3 hinit]
  exact hsl

end Xv6

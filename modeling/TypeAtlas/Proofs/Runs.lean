/-
Whole rebuilds as runs of the protocol. The passes that a rebuild makes one after another, with the
actions of listeners and arrivals inside them, are steps of a single call: from a free lock, through
passes, follow-ups and drains, back to a free lock with nothing pending. So what holds of every
reachable system holds of every host that rebuilds lead to. A rebuild has as many passes as it may
need, since a pass leaves something pending only if it used up a list of actions.
-/
import TypeAtlas.Proofs.Protocol

namespace TypeAtlas

/-! ## Enough passes -/

namespace Host

/-- The lists of actions that listeners have left. -/
def scriptsLeft (h : Host) : List (List Action) := h.listeners.flatten

theorem act_building (h : Host) (a : Action) : (h.act a).host.building = h.building := by
  cases a with
  | edit e => simp only [act, edit]; split <;> rfl
  | _ => rfl

theorem act_listeners (h : Host) (a : Action) : (h.act a).host.listeners = h.listeners := by
  cases a with
  | edit e => simp only [act, edit]; split <;> rfl
  | _ => rfl

theorem actAll_listeners (as : List Action) (h : Host) :
    (h.actAll as).2.listeners = h.listeners := by
  induction as generalizing h with
  | nil => rfl
  | cons a as ih => exact (ih _).trans (act_listeners h a)

/-- A listener uses up a list of its script, or has none left. -/
theorem flatten_set_drop (scripts : List Script) (i : Nat) :
    (scripts.set i (((scripts[i]?).getD []).drop 1)).flatten.Sublist scripts.flatten ∧
      (scripts.set i (((scripts[i]?).getD []).drop 1)).flatten.length +
        min 1 ((scripts[i]?).getD []).length = scripts.flatten.length := by
  induction scripts generalizing i with
  | nil => exact ⟨.slnil, rfl⟩
  | cons script scripts ih =>
    cases i with
    | zero =>
      simp only [List.set_cons_zero, List.getElem?_cons_zero, Option.getD_some, List.flatten_cons,
        List.length_append, List.length_drop]
      exact ⟨(List.drop_sublist 1 script).append_right _, by omega⟩
    | succ i =>
      obtain ⟨hsub, hlength⟩ := ih i
      simp only [List.set_cons_succ, List.getElem?_cons_succ, List.flatten_cons,
        List.length_append]
      exact ⟨hsub.append_left script, by omega⟩

/-- Of the lists of actions that are left a step of a rebuild uses up some, and what it leaves
pending was pending before, or it did use up one. -/
structure Spends (pending : Bool) (left : List (List Action)) (pending' : Bool)
    (left' : List (List Action)) : Prop where
  sublist : left'.Sublist left
  lt : pending' = true → pending = true ∨ left'.length < left.length

theorem Spends.refl (pending : Bool) (left : List (List Action)) :
    Spends pending left pending left := ⟨.refl left, .inl⟩

theorem Spends.trans {p q r : Bool} {k l m : List (List Action)} (h : Spends p k q l)
    (h' : Spends q l r m) : Spends p k r m := by
  refine ⟨h'.sublist.trans h.sublist, fun hr => ?_⟩
  rcases h'.lt hr with hq | hlt
  · exact (h.lt hq).imp_right fun hlt => Nat.lt_of_le_of_lt h'.sublist.length_le hlt
  · exact .inr (Nat.lt_of_lt_of_le hlt h.sublist.length_le)

theorem announceTo_spends (m : Model) (h : Host) (listener : Nat) :
    Spends h.pending h.scriptsLeft (h.announceTo m listener).2.pending
      (h.announceTo m listener).2.scriptsLeft := by
  obtain ⟨hsub, hlength⟩ := flatten_set_drop h.listeners listener
  have hleft : (h.announceTo m listener).2.scriptsLeft =
      (h.listeners.set listener (((h.listeners[listener]?).getD []).drop 1)).flatten := by
    unfold scriptsLeft announceTo
    rw [actAll_listeners]
  rw [hleft]
  refine ⟨hsub, fun hp => ?_⟩
  cases hs : (h.listeners[listener]?).getD [] with
  | nil =>
    -- without a list left the listener does nothing
    simp only [announceTo, hs, List.head?_nil, Option.getD_none, actAll] at hp
    exact .inl hp
  | cons as script =>
    rw [hs] at hlength
    simp only [List.length_cons] at hlength
    unfold scriptsLeft
    exact .inr (by omega)

theorem announceEach_spends (m : Model) (listeners : List Nat) (h : Host) :
    Spends h.pending h.scriptsLeft (h.announceEach m listeners).2.pending
      (h.announceEach m listeners).2.scriptsLeft := by
  induction listeners generalizing h with
  | nil => exact .refl _ _
  | cons listener more ih => exact (announceTo_spends m h listener).trans (ih _)

theorem length_listeners_announceEach (m : Model) (listeners : List Nat) (h : Host) :
    (h.announceEach m listeners).2.listeners.length = h.listeners.length := by
  induction listeners generalizing h with
  | nil => rfl
  | cons listener more ih =>
    refine (ih _).trans ?_
    simp only [actAll_listeners, List.length_set]

namespace Run

/-- The lists of actions that are left, of arrivals and of listeners. -/
def lists (r : Run) : List (List Action) := r.arrivals ++ r.host.scriptsLeft

theorem length_lists (r : Run) : r.lists.length = r.listsLeft := List.length_append

theorem arrive_spends (r : Run) :
    Spends r.host.pending r.lists r.arrive.host.pending r.arrive.lists := by
  unfold arrive
  split
  · exact .refl _ _
  · rename_i actions arrivals harrivals
    unfold lists scriptsLeft
    rw [actAll_listeners, harrivals]
    exact ⟨List.sublist_cons_self _ _, fun _ => .inr (by simp)⟩

theorem finish_spends (r : Run) (m : Model) :
    Spends r.host.pending r.lists (r.finish m).host.pending (r.finish m).lists := by
  unfold finish
  split
  · exact .refl _ _
  · rename_i host hp
    obtain ⟨-, -, rfl⟩ := Protocol.publish_eq_ok hp
    have h := announceEach_spends m (List.range r.host.listeners.length)
      { r.host with generation := m.generation, model := m }
    refine ⟨h.sublist.append_left _, fun hp => (h.lt hp).imp_right fun hlt => ?_⟩
    unfold lists
    rw [List.length_append, List.length_append]
    exact Nat.add_lt_add_left hlt _

theorem pass_of_covers {r : Run} (h : r.host.beginPass.covers r.host.beginPass.snapshot = true) :
    r.pass = { r with
      host := r.host.beginPass, outcome := .ok (.upToDate r.host.model.generation) } := by
  unfold pass
  exact if_pos h

theorem pass_of_not_covers {r : Run}
    (h : r.host.beginPass.covers r.host.beginPass.snapshot = false) :
    r.pass = ({ r with host := r.host.beginPass }.arrive).finish
      (r.host.beginPass.candidate r.host.beginPass.snapshot) := by
  unfold pass
  exact if_neg (by rw [h]; nofun)

/-- A pass leaves something pending only if it used up a list. -/
theorem pass_spends (r : Run) : Spends false r.lists r.pass.host.pending r.pass.lists := by
  cases hcovers : r.host.beginPass.covers r.host.beginPass.snapshot with
  | true =>
    rw [pass_of_covers hcovers]
    exact .refl _ _
  | false =>
    rw [pass_of_not_covers hcovers]
    have harrive := arrive_spends { r with host := r.host.beginPass }
    exact harrive.trans (finish_spends _ _)

theorem listsLeft_pass {r : Run} (hp : r.pass.host.pending = true) :
    r.pass.listsLeft < r.listsLeft := by
  rw [← length_lists, ← length_lists]
  exact (r.pass_spends.lt hp).resolve_left nofun

/-- A rebuild about to begin its first pass. -/
def start (h : Host) (arrivals : List (List Action)) : Run :=
  { host := { h with building := true }, arrivals, arrived := 0, events := [],
    outcome := .ok .coalesced }

theorem passes_succ (fuel : Nat) (r : Run) :
    r.passes (fuel + 1) = if r.pass.host.pending then r.pass.passes fuel else r.pass := rfl

/-- With enough passes nothing stays pending. -/
theorem passes_pending {fuel : Nat} {r : Run} (h : r.listsLeft < fuel) :
    (r.passes fuel).host.pending = false := by
  induction fuel generalizing r with
  | zero => exact absurd h (Nat.not_lt_zero _)
  | succ fuel ih =>
    rw [passes_succ]
    split
    · rename_i hp
      have := listsLeft_pass hp
      exact ih (by omega)
    · rename_i hp
      exact Bool.not_eq_true _ ▸ hp

end Run

/-- With a free lock, a rebuild makes its passes and gives the lock back. -/
theorem rebuild_of_free {h : Host} (hfree : h.building = false) (arrivals : List (List Action)) :
    h.rebuild arrivals =
      let r := (Run.start h arrivals).passes ((Run.start h arrivals).listsLeft + 1)
      ⟨match r.outcome with
        | .ok o => o
        | .error .superseded => .coalesced, r.events, { r.host with building := false }⟩ := by
  unfold rebuild
  rw [if_neg (by rw [hfree]; nofun)]
  rfl

end Host

namespace Protocol

open Host Relation

/-! ## Runs of one call -/

/-- A step that does to the sources what one of some actions does, or nothing. -/
def StepBy (acts : List Action) (s s' : System) : Prop :=
  Step s s' ∧ ∃ a, (a = .observe ∨ a ∈ acts) ∧ s'.host.sources = (s.act a).host.sources ∧
    s'.edits = (s.act a).edits

theorem steps_of_stepBy {acts : List Action} {s s' : System}
    (h : ReflTransGen (StepBy acts) s s') : ReflTransGen Step s s' :=
  ReflTransGen.mono (fun _ _ => And.left) _ _ h

variable {acts : List Action} {call : Nat} {s : System}

/-- A run of a system after which the host is `host` and a call at `stage`, while no other call
moved; all edits in it are among `acts`. -/
def Runs (acts : List Action) (s : System) (call : Nat) (host : Host) (stage : Stage) : Prop :=
  ∃ s', ReflTransGen (StepBy acts) s s' ∧ s'.host = host ∧
    s'.calls = Function.update s.calls call stage

theorem Runs.refl {stage : Stage} (hc : s.calls call = stage) : Runs acts s call s.host stage :=
  ⟨s, .refl, rfl, by rw [← hc, Function.update_eq_self]⟩

theorem Runs.trans {host host' : Host} {stage stage' : Stage} (h : Runs acts s call host stage)
    (h' : ∀ {s' : System}, ReflTransGen (StepBy acts) s s' → s'.host = host →
      s'.calls call = stage → Runs acts s' call host' stage') : Runs acts s call host' stage' := by
  obtain ⟨s₁, hsteps, hhost, hcalls⟩ := h
  obtain ⟨s₂, hsteps', hhost', hcalls'⟩ := h' hsteps hhost (by rw [hcalls, Function.update_self])
  refine ⟨s₂, hsteps.trans hsteps', hhost', ?_⟩
  rw [hcalls', hcalls, Function.update_idem]

/-- A step that leaves the sources alone. -/
theorem Runs.step {s' : System} {host : Host} {stage : Stage} (h : Step s s')
    (hquiet : s'.host.sources = s.host.sources ∧ s'.edits = s.edits) (hhost : s'.host = host)
    (hcalls : s'.calls = Function.update s.calls call stage) : Runs acts s call host stage :=
  ⟨s', .single ⟨h, .observe, .inl rfl, hquiet.1, hquiet.2⟩, hhost, hcalls⟩

/-- Others act while a call holds the lock. -/
theorem runs_actAll {as : List Action} (has : as ⊆ acts) (hheld : s.host.building = true) :
    Runs acts s call (s.host.actAll as).2 (s.calls call) := by
  induction as generalizing s with
  | nil => exact .refl rfl
  | cons a as ih =>
    obtain ⟨ha, has⟩ := List.cons_subset.1 has
    have hact : StepBy acts s (s.act a) := ⟨.act a fun _ => hheld, a, .inr ha, rfl, rfl⟩
    obtain ⟨s', hsteps, hhost, hcalls⟩ :=
      ih (s := s.act a) has (by rw [System.act_host, act_building]; exact hheld)
    refine ⟨s', .head hact hsteps, by rw [hhost, System.act_host]; rfl, ?_⟩
    rw [hcalls, System.act_calls]

/-- A listener acts. -/
theorem runs_todo {again : Bool} {generation next : Nat} {as : List Action} (has : as ⊆ acts)
    (hc : s.calls call = .announcing again generation as next) :
    Runs acts s call (s.host.actAll as).2 (.announcing again generation [] next) := by
  induction as generalizing s with
  | nil => exact .refl hc
  | cons a as ih =>
    obtain ⟨ha, has⟩ := List.cons_subset.1 has
    have hreact : Runs acts s call (s.host.act a).host (.announcing again generation as next) :=
      ⟨_, .single ⟨.react call hc, a, .inr ha, rfl, rfl⟩, System.act_host s a,
        by rw [System.move, System.act_calls]⟩
    refine hreact.trans fun {s'} _ hhost hcalls => ?_
    have h := ih has hcalls
    rw [hhost] at h
    exact h

/-- Listeners are told, one after another. -/
theorem runs_announceEach (m : Model) {again : Bool} {generation : Nat} (n : Nat) {next : Nat}
    (hacts : ∀ as ∈ s.host.scriptsLeft, as ⊆ acts)
    (hc : s.calls call = .announcing again generation [] next)
    (hlen : s.host.listeners.length = next + n) :
    Runs acts s call (s.host.announceEach m (List.range' next n)).2
      (.announcing again generation [] (next + n)) := by
  induction n generalizing s next with
  | zero => exact .refl hc
  | succ n ih =>
    have hlt : next < s.host.listeners.length := by omega
    have htodo : (s.host.listeners[next]).head?.getD [] ⊆ acts := by
      cases hhead : (s.host.listeners[next]).head? with
      | none => exact List.nil_subset acts
      | some as =>
        refine hacts as (List.mem_flatten.2 ⟨_, List.getElem_mem hlt, ?_⟩)
        exact List.mem_of_mem_head? hhead
    have htell : Runs acts s call _ _ :=
      .step (.tell call hc (List.getElem?_eq_getElem hlt)) ⟨rfl, rfl⟩ rfl rfl
    refine htell.trans fun {s₁} _ hhost₁ hcalls₁ => ?_
    refine (runs_todo htodo hcalls₁).trans fun {s₂} _ hhost₂ hcalls₂ => ?_
    have hhost : s₂.host = (s.host.announceTo m next).2 := by
      rw [hhost₂, hhost₁]
      simp [announceTo, System.move, System.setListeners, List.getElem?_eq_getElem hlt]
    have hacts₂ : ∀ as ∈ s₂.host.scriptsLeft, as ⊆ acts := by
      intro as has
      rw [hhost] at has
      exact hacts as ((announceTo_spends m s.host next).sublist.subset has)
    have hlen₂ : s₂.host.listeners.length = next + 1 + n := by
      rw [hhost, announceTo]
      simp only [actAll_listeners, List.length_set]
      omega
    have h := ih hacts₂ hcalls₂ hlen₂
    rw [hhost, show next + 1 + n = next + (n + 1) by omega] at h
    exact h

/-! ## Passes -/

theorem runs_arrive {r : Run} (hacts : ∀ as ∈ r.lists, as ⊆ acts) (hhost : s.host = r.host)
    (hheld : s.host.building = true) : Runs acts s call r.arrive.host (s.calls call) := by
  unfold Run.arrive
  split
  · rw [← hhost]
    exact .refl rfl
  · rename_i actions arrivals harrivals
    rw [← hhost]
    refine runs_actAll (hacts actions ?_) hheld
    unfold Run.lists
    rw [harrivals]
    exact List.mem_append_left _ List.mem_cons_self

theorem runs_finish {r : Run} {again : Bool} {token : Nat} {m : Model}
    (hacts : ∀ as ∈ r.lists, as ⊆ acts) (hhost : s.host = r.host)
    (hc : s.calls call = .publishing again token m) :
    Runs acts s call (r.finish m).host (.afterPass again (r.finish m).outcome) := by
  unfold Run.finish
  split
  · rename_i e he
    exact .step (.discard call hc (by rw [hhost]; exact he)) ⟨rfl, rfl⟩ hhost rfl
  · rename_i host hp
    obtain ⟨-, -, hpublished⟩ := publish_eq_ok hp
    have hsources : host.sources = s.host.sources := by rw [hpublished, hhost]
    have hlisteners : host.listeners = r.host.listeners := by rw [hpublished]
    have hpublish : Runs acts s call host _ :=
      .step (.publish call hc (by rw [hhost]; exact hp)) ⟨hsources, rfl⟩ rfl rfl
    refine hpublish.trans fun {s₁} _ hhost₁ hc₁ => ?_
    have hacts₁ : ∀ as ∈ s₁.host.scriptsLeft, as ⊆ acts := by
      unfold scriptsLeft
      rw [hhost₁, hlisteners]
      exact fun as has => hacts as (List.mem_append_right _ has)
    have hlen : s₁.host.listeners.length = 0 + host.listeners.length := by
      rw [hhost₁, Nat.zero_add]
    refine (runs_announceEach m _ hacts₁ hc₁ hlen).trans fun {s₂} _ hhost₂ hc₂ => ?_
    rw [hhost₁, ← List.range_eq_range'] at hhost₂
    have htold : s₂.host.listeners.length ≤ 0 + host.listeners.length := by
      rw [hhost₂, length_listeners_announceEach, Nat.zero_add]
    exact .step (.told call hc₂ htold) ⟨rfl, rfl⟩ hhost₂ rfl

theorem runs_pass {r : Run} {again : Bool} (hacts : ∀ as ∈ r.lists, as ⊆ acts)
    (hhost : s.host = r.host) (hc : s.calls call = .starting again)
    (hheld : s.host.building = true) :
    Runs acts s call r.pass.host (.afterPass again r.pass.outcome) := by
  have hbegin : Runs acts s call r.host.beginPass _ :=
    .step (.begin call hc) ⟨rfl, rfl⟩ (congrArg Host.beginPass hhost) rfl
  refine hbegin.trans fun {s₁} _ hhost₁ hc₁ => ?_
  refine (Runs.step (.read call hc₁) ⟨rfl, rfl⟩ hhost₁ rfl).trans fun {s₂} _ hhost₂ hc₂ => ?_
  rw [hhost₁] at hc₂
  cases hcovers : r.host.beginPass.covers r.host.beginPass.snapshot with
  | true =>
    rw [Run.pass_of_covers hcovers]
    have h : Runs acts s₂ call r.host.beginPass _ :=
      .step (.skip call hc₂ (by rw [hhost₂]; exact hcovers)) ⟨rfl, rfl⟩ hhost₂ rfl
    rw [hhost₂] at h
    exact h
  | false =>
    rw [Run.pass_of_not_covers hcovers]
    have hbuild : Runs acts s₂ call r.host.beginPass _ :=
      .step (@Step.build s₂ call _ _ _ hc₂ (by rw [hhost₂]; exact hcovers) .never _ rfl)
        ⟨rfl, rfl⟩ hhost₂ rfl
    refine hbuild.trans fun {s₃} _ hhost₃ hc₃ => ?_
    rw [hhost₂] at hc₃
    have hheld₃ : s₃.host.building = true := by rw [hhost₃, ← hheld, hhost]; rfl
    have harrive : Runs acts s₃ call { r with host := r.host.beginPass }.arrive.host _ :=
      runs_arrive hacts hhost₃ hheld₃
    refine harrive.trans fun _ hhost₄ hc₄ => runs_finish ?_ hhost₄ (hc₄.trans hc₃)
    intro as has
    exact hacts as ((Run.arrive_spends { r with host := r.host.beginPass }).sublist.subset has)

/-- The passes of a rebuild, as long as something is pending. The lock is given back after every
second one, and taken again. -/
theorem runs_passes (fuel : Nat) {r : Run} {again : Bool} (hacts : ∀ as ∈ r.lists, as ⊆ acts)
    (hi : Inv s) (hhost : s.host = r.host) (hc : s.calls call = .starting again)
    (hfuel : r.listsLeft < fuel) :
    Runs acts s call { (r.passes fuel).host with building := false }
      (.draining (r.passes fuel).outcome) := by
  induction fuel generalizing s r again with
  | zero => exact absurd hfuel (Nat.not_lt_zero _)
  | succ fuel ih =>
    have hpass := runs_pass hacts hhost hc (hi.held (by rw [hc]; rfl))
    refine hpass.trans fun {s₁} hsteps₁ hhost₁ hc₁ => ?_
    have hi₁ := hi.steps (steps_of_stepBy hsteps₁)
    have hheld₁ : s₁.host.building = true := hi₁.held (by rw [hc₁]; simp)
    have hunlock : ∀ {s' : System}, s'.host = r.pass.host → s'.calls call = .unlocking r.pass.outcome →
        Runs acts s' call { r.pass.host with building := false } (.draining r.pass.outcome) := by
      intro s' hhost' hc'
      exact .step (.unlock call hc') ⟨rfl, rfl⟩ (by rw [System.unlock, hhost']) rfl
    rw [Run.passes_succ]
    cases hp : r.pass.host.pending with
    | true =>
      have hleft := Run.listsLeft_pass hp
      have hacts₁ : ∀ as ∈ r.pass.lists, as ⊆ acts :=
        fun as has => hacts as (r.pass_spends.sublist.subset has)
      rw [if_pos rfl]
      cases again with
      | false =>
        refine (Runs.step (.followUp call hc₁ (hhost₁ ▸ hp)) ⟨rfl, rfl⟩ hhost₁ rfl).trans
          fun {s₂} hsteps₂ hhost₂ hc₂ => ?_
        exact ih hacts₁ (hi₁.steps (steps_of_stepBy hsteps₂)) hhost₂ hc₂ (by omega)
      | true =>
        -- nobody else moves, so the call finds the lock free again
        refine (hunlock hhost₁ hc₁).trans fun {s₂} hsteps₂ hhost₂ hc₂ => ?_
        rw [hhost₁] at hheld₁
        have hretake : Runs acts s₂ call r.pass.host (.starting false) :=
          .step (.retake call hc₂ (by rw [hhost₂]; exact hp) (by rw [hhost₂])) ⟨rfl, rfl⟩
            (by rw [System.take, hhost₂, ← hheld₁]) rfl
        refine hretake.trans fun {s₃} hsteps₃ hhost₃ hc₃ => ?_
        exact ih hacts₁ (hi₁.steps (steps_of_stepBy (hsteps₂.trans hsteps₃))) hhost₃ hc₃ (by omega)
    | false =>
      rw [if_neg nofun]
      cases again with
      | false =>
        exact (Runs.step (.settle call hc₁ (hhost₁ ▸ hp)) ⟨rfl, rfl⟩ hhost₁ rfl).trans fun _ => hunlock
      | true => exact hunlock hhost₁ hc₁

/-! ## Rebuilds -/

/-- The actions that listeners and arrivals may do during a rebuild. -/
def actions (h : Host) (arrivals : List (List Action)) : List Action :=
  (Run.start h arrivals).lists.flatten

/-- A rebuild is a run of the protocol: by a call that was not in flight and returns, with the answer
of the rebuild. -/
theorem exists_run_rebuild (hi : Inv s) (hidle : s.calls call = .idle)
    (hfree : s.host.building = false) (arrivals : List (List Action)) :
    ∃ s', ReflTransGen (StepBy (actions s.host arrivals)) s s' ∧
      s'.host = (s.host.rebuild arrivals).host ∧ s'.calls = s.calls ∧
      s'.answers.head? = some (.ok (s.host.rebuild arrivals).outcome) := by
  have htake : StepBy (actions s.host arrivals) s (s.take call true) :=
    ⟨.request call hidle hfree, .observe, .inl rfl, rfl, rfl⟩
  have hc : (s.take call true).calls call = .starting false := Function.update_self ..
  have hacts : ∀ as ∈ (Run.start s.host arrivals).lists, as ⊆ actions s.host arrivals :=
    fun as has a ha => List.mem_flatten.2 ⟨as, has, ha⟩
  obtain ⟨s₁, hsteps, hhost, hcalls⟩ := runs_passes _ hacts (hi.step htake.1) rfl hc
    (Nat.lt_succ_self _)
  have hquiet : s₁.host.pending = false := by
    rw [hhost]
    exact Run.passes_pending (Nat.lt_succ_self _)
  have hdraining := congrFun hcalls call
  rw [Function.update_self] at hdraining
  have hfinish : StepBy (actions s.host arrivals) s₁ (s₁.leave call (absorb _)) :=
    ⟨.finish call hdraining hquiet, .observe, .inl rfl, rfl, rfl⟩
  refine ⟨_, (hsteps.tail hfinish).head htake, ?_, ?_, ?_⟩
  · rw [rebuild_of_free hfree]
    exact hhost
  · show Function.update s₁.calls call .idle = s.calls
    rw [hcalls, Function.update_idem]
    show Function.update (Function.update s.calls call _) call .idle = s.calls
    rw [Function.update_idem, ← hidle, Function.update_eq_self]
  · rw [rebuild_of_free hfree]
    simp only [System.leave, List.head?_cons, Option.some.injEq]
    cases (Run.passes _ (Run.start s.host arrivals)).outcome with
    | ok o => rfl
    | error e => rfl

/-- A rebuild brings the published model up to date, whatever listeners and arrivals do meanwhile. -/
theorem rebuild_current (hi : Inv s) (hidle : s.calls call = .idle)
    (hfree : s.host.building = false) (arrivals : List (List Action)) :
    (s.host.rebuild arrivals).host.pending = false ∧
      (s.host.rebuild arrivals).host.model.revision = (s.host.rebuild arrivals).host.revision := by
  obtain ⟨s', hsteps, hhost, hcalls, -⟩ := exists_run_rebuild hi hidle hfree arrivals
  have hquiet : s'.host.pending = false := by
    rw [hhost, rebuild_of_free hfree]
    exact Run.passes_pending (Nat.lt_succ_self _)
  have hnone : ∀ c, (s'.calls c).holds = false := by
    rw [hcalls]
    exact hi.locked.others_of_free hfree
  rw [← hhost]
  exact ⟨hquiet, (hi.steps (steps_of_stepBy hsteps)).current_of_idle hnone hquiet⟩

end Protocol

end TypeAtlas

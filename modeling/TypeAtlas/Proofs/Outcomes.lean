/-
What a rebuild of one thread reports. Its outcome is that of the last of its passes. Main statement:
it tells of a publication unless a request came after the last one; the last pass answers such a
request, finds the model up to date that an earlier pass published, and reports that.
-/
import TypeAtlas.Proofs.FollowUps

namespace TypeAtlas.Host

/-! ## Requests after the last publication -/

/-- Some request in a log comes after the last publication. -/
def Unanswered (log : List Entry) : Prop :=
  ∃ before e after, log = before ++ e :: after ∧ e.deed.isRequest = true ∧ publications after = []

theorem not_unanswered_nil : ¬Unanswered [] := by
  rintro ⟨before, e, after, hlog, -⟩
  simp at hlog

theorem unanswered_iff {before told : List Entry} {m : Model} {host : Host}
    (hquiet : publications told = []) :
    Unanswered (before ++ ⟨.published m, host⟩ :: told) ↔ ∃ e ∈ told, e.deed.isRequest = true := by
  constructor
  · rintro ⟨before', e, after, hlog, hrequest, hafter⟩
    rcases List.append_eq_append_iff.1 hlog with ⟨between, -, hsplit⟩ | ⟨between, -, hsplit⟩
    · cases between with
      | nil =>
        obtain ⟨rfl, -⟩ := List.cons.inj hsplit
        cases hrequest
      | cons _ between =>
        obtain ⟨-, rfl⟩ := List.cons.inj hsplit
        exact ⟨e, by simp, hrequest⟩
    · -- the publication would come after the request
      cases between with
      | nil =>
        obtain ⟨rfl, -⟩ := List.cons.inj hsplit
        cases hrequest
      | cons _ between =>
        obtain ⟨-, hafter'⟩ := List.cons.inj hsplit
        rw [hafter', List.append_eq, publications_append] at hafter
        exact absurd (List.append_eq_nil_iff.1 hafter).2 (List.cons_ne_nil _ _)
  · rintro ⟨e, he, hrequest⟩
    obtain ⟨before', after, rfl⟩ := List.append_of_mem he
    refine ⟨before ++ ⟨.published m, host⟩ :: before', e, after, by simp, hrequest, ?_⟩
    rw [List.append_cons, publications_append] at hquiet
    exact (List.append_eq_nil_iff.1 hquiet).2

/-- What stirs without a change is a request. -/
theorem exists_request {log : List Entry} (hstirred : stirred log = true)
    (hnone : changes log = 0) : ∃ e ∈ log, e.deed.isRequest = true := by
  obtain ⟨e, he, hstirs⟩ := List.any_eq_true.1 hstirred
  refine ⟨e, he, ?_⟩
  rcases Bool.or_eq_true_iff.1 hstirs with hchange | hrequest
  · exact absurd hchange (List.countP_eq_zero.1 hnone e he)
  · exact hrequest

theorem not_request {log : List Entry} (hquiet : stirred log = false) :
    ¬∃ e ∈ log, e.deed.isRequest = true := by
  rintro ⟨e, he, hrequest⟩
  have hstirs := List.any_eq_false.1 hquiet e he
  simp [Deed.stirs, hrequest] at hstirs

namespace Run

variable {fuel : Nat} {r : Run} (hr : r.arrivals = []) (hfuel : r.listsLeft < fuel)

include hr hfuel

/-- The outcome of the last pass, by what the log says: it published, or it is the only pass, or it
answers a request that came after the last publication. -/
theorem outcome_cases :
    (∃ m, (r.passes fuel).outcome = .ok (.published m.generation) ∧
        (r.passes fuel).host.model = m ∧ publications (r.passesLog fuel) ≠ [] ∧
        ¬Unanswered (r.passesLog fuel)) ∨
      (r.passes fuel).outcome = .ok (.upToDate (r.passes fuel).host.model.generation) ∧
        (publications (r.passesLog fuel) = [] ∧ ¬Unanswered (r.passesLog fuel) ∨
          publications (r.passesLog fuel) ≠ [] ∧ Unanswered (r.passesLog fuel)) := by
  obtain ⟨last, hlast, hpasses, hdone, hlog⟩ := exists_last hr hfuel
  have hnonempty : ∀ (log told : List Entry) (m : Model) (host : Host),
      publications (log ++ ⟨.published m, host⟩ :: told) ≠ [] := by
    intro log told m host
    rw [publications_append]
    exact List.append_ne_nil_of_right_ne_nil _ (List.cons_ne_nil _ _)
  rw [hpasses]
  rcases upToDate_or_publishes hlast with hpass | ⟨m, host, told, hpass⟩
  · refine .inr ⟨by rw [hpass.outcome, hpass.host]; rfl, ?_⟩
    rcases hlog with ⟨-, hlog⟩ | ⟨prior, log, hprior, rfl, hpending, hlog⟩
    · rw [hlog, hpass.log]
      exact .inl ⟨rfl, not_unanswered_nil⟩
    · -- the pass before left something pending, so it published, and no edit changed anything since
      rcases upToDate_or_publishes hprior with hbefore | ⟨m, host, told, hbefore⟩
      · rw [hbefore.pending] at hpending
        cases hpending
      · have hnone : changes told = 0 := by
          have hsame := hpass.revision
          have hrevision := hbefore.revision_pass
          rw [hbefore.model_pass] at hsame
          omega
        rw [hlog, hpass.log, hbefore.log, List.append_nil]
        refine .inr ⟨hnonempty _ _ _ _, (unanswered_iff hbefore.quiet).2 ?_⟩
        exact exists_request (hbefore.pending.symm.trans hpending) hnone
  · obtain ⟨log, hlog⟩ : ∃ log, r.passesLog fuel = log ++ ⟨.published m, host⟩ :: told := by
      rw [← hpass.log]
      rcases hlog with ⟨-, hlog⟩ | ⟨_, _, -, -, -, hlog⟩
      · exact ⟨[], hlog⟩
      · exact ⟨_, hlog⟩
    rw [hlog, unanswered_iff hpass.quiet]
    exact .inl ⟨m, hpass.outcome, hpass.model_pass, hnonempty _ _ _ _,
      not_request (hpass.pending.symm.trans hdone)⟩

end Run

theorem generation_rebuild (h : Host) (arrivals : List (List Action)) :
    (h.rebuild arrivals).host.generation =
      h.generation + (publications (h.rebuildLog arrivals)).length :=
  (path_rebuild h arrivals).generation

/-- A rebuild tells of its last publication, unless a request came after it; else the model is up to
date. -/
theorem outcome_rebuild {h : Host} (hfree : h.building = false)
    (hc : h.generation = h.model.generation) :
    ((h.rebuild []).outcome = .published (h.rebuild []).host.generation ∧
        publications (h.rebuildLog []) ≠ [] ∧ ¬Unanswered (h.rebuildLog [])) ∨
      ((h.rebuild []).outcome = .upToDate (h.rebuild []).host.generation ∧
        publications (h.rebuildLog []) = [] ∧ ¬Unanswered (h.rebuildLog [])) ∨
      (h.rebuild []).outcome = .upToDate (h.rebuild []).host.generation ∧
        publications (h.rebuildLog []) ≠ [] ∧ Unanswered (h.rebuildLog []) := by
  have hcoherent : (h.rebuild []).host.generation = (h.rebuild []).host.model.generation :=
    (path_rebuild h []).coherent hc
  have hmodel : (h.rebuild []).host.model =
      ((Run.start h []).passes ((Run.start h []).listsLeft + 1)).host.model := by
    rw [rebuild_of_free hfree]
  have houtcome : ∀ o, ((Run.start h []).passes ((Run.start h []).listsLeft + 1)).outcome = .ok o →
      (h.rebuild []).outcome = o := by
    intro o ho
    rw [rebuild_of_free hfree]
    simp only [ho]
  rw [rebuildLog_of_free hfree, hcoherent, hmodel]
  rcases Run.outcome_cases (r := Run.start h []) rfl (Nat.lt_succ_self _) with
    ⟨m, hlast, rfl, hsome, hanswered⟩ | ⟨hlast, hnone | hlate⟩
  · exact .inl ⟨houtcome _ hlast, hsome, hanswered⟩
  · exact .inr (.inl ⟨houtcome _ hlast, hnone⟩)
  · exact .inr (.inr ⟨houtcome _ hlast, hlate⟩)

/-! ## Hosts of a session -/

theorem building_call {h : Host} (hfree : h.building = false) (c : Call) :
    (h.call c).building = false := by
  cases c with
  | edit e => exact (act_building h (.edit e)).trans hfree
  | registerModule name custom => exact (act_building h (.registerModule name custom)).trans hfree
  | fileId path => exact (act_building h (.fileId path)).trans hfree
  | subscribe script => exact hfree
  | rebuild arrivals =>
    show (h.rebuild arrivals).host.building = false
    rw [rebuild_of_free hfree]

theorem building_session (calls : List Call) {h : Host} (hfree : h.building = false) :
    (h.session calls).building = false := by
  induction calls generalizing h with
  | nil => exact hfree
  | cons c calls ih => exact ih (building_call hfree c)

/-- What the outcome of a rebuild tells: it reports a publication exactly if it published and no
request came after the last publication, with the generation that it ends with. Otherwise it reports
this generation as up to date, which after such a request it published itself. -/
structure Tells (h : Host) : Prop where
  published : ∀ g, (h.rebuild []).outcome = .published g ↔
    h.generation < (h.rebuild []).host.generation ∧ g = (h.rebuild []).host.generation ∧
      ¬Unanswered (h.rebuildLog [])
  upToDate : ∀ g, (h.rebuild []).outcome = .upToDate g ↔
    publications (h.rebuildLog []) = [] ∧ g = h.generation ∨
      Unanswered (h.rebuildLog []) ∧ g = (h.rebuild []).host.generation
  late : Unanswered (h.rebuildLog []) → h.generation < (h.rebuild []).host.generation

/-- In every host that a session leads to, and whatever listeners do, the outcome of a rebuild is
that of its last pass, so it tells of a publication unless a request came after the last one. -/
theorem tells_session (config : Config) (calls : List Call) :
    Tells ((Host.new config).session calls) := by
  have hfree := building_session calls (h := Host.new config) rfl
  have hc : ((Host.new config).session calls).generation =
      ((Host.new config).session calls).model.generation :=
    (path_chronicle calls (Host.new config)).coherent rfl
  generalize (Host.new config).session calls = h at hfree hc
  have hgeneration := generation_rebuild h []
  have hlt : h.generation < (h.rebuild []).host.generation ↔
      publications (h.rebuildLog []) ≠ [] := by
    rw [hgeneration, ← List.length_pos_iff]
    omega
  rcases outcome_rebuild hfree hc with ⟨ho, hsome, hanswered⟩ | ⟨ho, hnone, hanswered⟩ |
    ⟨ho, hsome, hunanswered⟩
  · refine ⟨fun g => ?_, fun g => ?_, fun hunanswered => absurd hunanswered hanswered⟩
    · simp [ho, hlt.2 hsome, hanswered, eq_comm]
    · simp [ho, hsome, hanswered]
  · have hsame : (h.rebuild []).host.generation = h.generation := by
      rw [hgeneration, hnone]
      rfl
    refine ⟨fun g => ?_, fun g => ?_, fun hunanswered => absurd hunanswered hanswered⟩
    · simp [ho, hsame]
    · simp [ho, hnone, hanswered, hsame, eq_comm]
  · refine ⟨fun g => ?_, fun g => ?_, fun _ => hlt.2 hsome⟩
    · simp [ho, hunanswered]
    · simp [ho, hsome, hunanswered, eq_comm]

/-- A listener asks for a rebuild when it is called with the first generation. -/
def askingHost : Host :=
  (Host.new {}).session [.subscribe [[.rebuild]], .edit (.setGroup (.empty ⟨0⟩ ⟨0⟩))]

/-- The rebuild publishes the first generation and then reports it as up to date, as if it had found
it. -/
theorem upToDate_after_publication :
    askingHost.generation = 0 ∧ (askingHost.rebuild []).host.generation = 1 ∧
      (askingHost.rebuild []).outcome = .upToDate 1 ∧
      ¬((∃ g, (askingHost.rebuild []).outcome = .published g) ↔
        askingHost.generation < (askingHost.rebuild []).host.generation) := by
  have houtcome : (askingHost.rebuild []).outcome = .upToDate 1 := rfl
  refine ⟨rfl, rfl, houtcome, fun hiff => ?_⟩
  obtain ⟨g, hg⟩ := hiff.2 (by decide)
  rw [houtcome] at hg
  cases hg

end TypeAtlas.Host

/-
What a profile does to the findings of an inspection. Every check reports through the profile, each
from branches of its own, and still a profile only filters and grades. Main statement: after any
calls that turn checks off and set severities, an inspection gives the findings of an unconfigured
one, in order, without those of the checks turned off and each with the severity set last for its
check; calls for different checks may change places.

The proof follows the inspection downwards: one report under a profile is the unconfigured report
regraded (`filterMap_flag`), and regrading passes through every function that collects reports.
-/
import TypeAtlas.Assist.Inspection
import Mathlib.Data.List.Basic
import Mathlib.Data.List.Induction

namespace TypeAtlas.Inspection

namespace Profile

/-! ## Regrading -/

/-- A finding of an unconfigured inspection under a profile: left out if its check is off, else with
the severity that the profile has for its check. -/
def regrade? (p : Profile) (f : Finding) : Option Finding :=
  if p.isEnabled f.check then some { f with severity := p.severityOf f.check } else none

@[simp]
theorem filterMap_flag (p : Profile) (condition : Bool) (check : Check) (location : Location)
    (message : String) :
    (({} : Profile).flag condition check location message).filterMap p.regrade? =
      p.flag condition check location message := by
  cases condition with
  | false => rfl
  | true =>
    have hon : ({} : Profile).isEnabled check = true := rfl
    simp only [flag, report, if_true, hon, List.filterMap_cons, List.filterMap_nil, regrade?]
    cases p.isEnabled check <;> rfl

end Profile

variable (m : Model) (p : Profile)

@[simp]
theorem filterMap_qualifierName (qualifier : String) (location : Location) :
    (qualifierName {} qualifier location).filterMap p.regrade? =
      qualifierName p qualifier location := by
  unfold qualifierName
  exact p.filterMap_flag _ _ _ _

@[simp]
theorem filterMap_enumValue (owner : String) (v : EnumValueDecl) :
    (enumValue {} owner v).filterMap p.regrade? = enumValue p owner v := by
  unfold enumValue
  exact p.filterMap_flag _ _ _ _

@[simp]
theorem filterMap_attributeDecl (a : AttributeDecl) :
    (attributeDecl m {} a).filterMap p.regrade? = attributeDecl m p a := by
  simp only [attributeDecl, List.filterMap_append, filterMap_qualifierName, Profile.filterMap_flag]

@[simp]
theorem filterMap_endDecl (e : EndDecl) :
    (endDecl {} e).filterMap p.regrade? = endDecl p e := by
  simp only [endDecl, List.filterMap_append, Profile.filterMap_flag]
  cases e.qualifier with
  | none => rfl
  | some q => simp

@[simp]
theorem filterMap_catalogVersion (d : Declaration) :
    (catalogVersion m {} d).filterMap p.regrade? = catalogVersion m p d := by
  unfold catalogVersion
  split
  · rfl
  · exact p.filterMap_flag _ _ _ _

@[simp]
theorem filterMap_uniqueKey (d : Declaration) :
    (uniqueKey m {} d).filterMap p.regrade? = uniqueKey m p d := by
  unfold uniqueKey
  split
  · rfl
  · exact p.filterMap_flag _ _ _ _

@[simp]
theorem filterMap_declaration (d : Declaration) :
    (declaration m {} d).filterMap p.regrade? = declaration m p d := by
  unfold declaration typeName
  rw [List.filterMap_append, Profile.filterMap_flag]
  cases d.body with
  | item parent attributes indexes => simp [List.filterMap_flatMap]
  | enum values dynamic => simp [List.filterMap_flatMap]
  | relation source target => simp
  | collection elementType container => rfl
  | map argumentType returnType => rfl

/-- The findings under a profile are those without one, regraded. -/
theorem findings_eq_filterMap (group : Group) :
    findings m p group = (findings m {} group).filterMap p.regrade? := by
  simp [findings, List.filterMap_flatMap]

/-- Without a profile every finding has the severity of its check. -/
theorem severity_of_mem_findings {m : Model} {group : Group} {f : Finding}
    (hf : f ∈ findings m {} group) : f.severity = f.check.severity := by
  rw [findings_eq_filterMap, List.mem_filterMap] at hf
  obtain ⟨g, -, hg⟩ := hf
  cases hg
  rfl

/-! ## Calls -/

/-- A call that configures an inspection. -/
inductive Setting where
  | without (check : Check)
  | severity (check : Check) (level : Severity)
deriving DecidableEq

namespace Setting

/-- The check that a call is for. -/
def check : Setting → Check
  | without check => check
  | severity check _ => check

/-- The severity that a call sets for a check. -/
def severity? (c : Check) : Setting → Option Severity
  | without _ => none
  | severity check level => if check = c then some level else none

def apply (p : Profile) : Setting → Profile
  | without check => p.without check
  | severity check level => p.withSeverity check level

/-- The calls that turn off every check but one. -/
def only (check : Check) : List Setting := (Check.all.filter (· != check)).map without

end Setting

/-- The severity that the last of the calls for a check sets. -/
def lastSeverity? (check : Check) (settings : List Setting) : Option Severity :=
  (settings.filterMap (Setting.severity? check)).getLast?

/-- The profile after calls. -/
def Profile.after (settings : List Setting) : Profile := settings.foldl Setting.apply {}

theorem Profile.after_concat (settings : List Setting) (s : Setting) :
    after (settings ++ [s]) = s.apply (after settings) := by
  unfold after
  rw [List.foldl_append]
  rfl

theorem Profile.isEnabled_after (check : Check) (settings : List Setting) :
    (after settings).isEnabled check = true ↔ Setting.without check ∉ settings := by
  induction settings using List.reverseRecOn with
  | nil => simp [after, isEnabled]
  | append_singleton settings s ih =>
    rw [after_concat]
    cases s with
    | without c =>
      simp only [isEnabled, Setting.apply, without, List.contains_cons, Bool.not_or,
        Bool.and_eq_true, List.mem_append, List.mem_singleton, Setting.without.injEq, not_or]
      rw [and_comm]
      exact and_congr ih (by simp)
    | severity c level => simpa [isEnabled, Setting.apply, withSeverity] using ih

theorem Profile.lookup_after (check : Check) (settings : List Setting) :
    (after settings).severities.lookup check = lastSeverity? check settings := by
  induction settings using List.reverseRecOn with
  | nil => rfl
  | append_singleton settings s ih =>
    unfold lastSeverity? at ih ⊢
    rw [after_concat, List.filterMap_append]
    cases s with
    | without c => simpa [Setting.apply, without, Setting.severity?] using ih
    | severity c level =>
      by_cases hc : c = check
      · simp [Setting.apply, withSeverity, Setting.severity?, hc]
      · have hb : (check == c) = false := beq_false_of_ne (Ne.symm hc)
        simpa [Setting.apply, withSeverity, Setting.severity?, hc, List.lookup_cons, hb] using ih

/-- Two profiles with the same checks on and the same severities. -/
def Profile.Agrees (p q : Profile) : Prop :=
  ∀ check, p.isEnabled check = q.isEnabled check ∧ p.severityOf check = q.severityOf check

theorem findings_congr {p q : Profile} (h : p.Agrees q) (group : Group) :
    findings m p group = findings m q group := by
  rw [findings_eq_filterMap m p, findings_eq_filterMap m q]
  refine List.filterMap_congr fun f _ => ?_
  unfold Profile.regrade?
  rw [(h f.check).1, (h f.check).2]

/-- Calls for different checks may change places. -/
theorem Profile.after_swap {s t : Setting} (hne : s.check ≠ t.check) (before later : List Setting) :
    (after (before ++ s :: t :: later)).Agrees (after (before ++ t :: s :: later)) := by
  intro check
  -- at most one of the two calls sets a severity for the check
  have hone : s.severity? check = none ∨ t.severity? check = none := by
    cases s with
    | without c => exact .inl rfl
    | severity c level =>
      cases t with
      | without c' => exact .inr rfl
      | severity c' level' =>
        by_cases hc : c = check
        · exact .inr (if_neg fun hc' => hne (hc.trans hc'.symm))
        · exact .inl (if_neg hc)
  have hlast : lastSeverity? check (before ++ s :: t :: later) =
      lastSeverity? check (before ++ t :: s :: later) := by
    unfold lastSeverity?
    rcases hone with h | h <;> simp [List.filterMap_cons, h]
  constructor
  · rw [Bool.eq_iff_iff, isEnabled_after, isEnabled_after]
    simp only [List.mem_append, List.mem_cons]
    tauto
  · unfold severityOf
    rw [lookup_after, lookup_after, hlast]

/-- What calls do to the diagnostics for a group. -/
structure Regrades (m : Model) (group : Group) (settings : List Setting) : Prop where
  /-- Unconfigured, the diagnostics are the findings, each with its check's rule and severity. -/
  unconfigured : inspect m {} group = (findings m {} group).map fun f =>
    .ofRule f.check.rule f.check.severity f.location f.message
  /-- A check raised those findings that are left when every other check is off. -/
  raised : ∀ check,
    inspect m (.after (Setting.only check)) group =
      ((findings m {} group).filter fun f => f.check == check).map Finding.diagnostic
  /-- The findings of the checks that are not turned off stay in order, and only the severity
  changes: it is the last one set for the check, if any. -/
  configured : inspect m (.after settings) group =
    ((findings m {} group).filter fun f => Setting.without f.check ∉ settings).map fun f =>
      { f.diagnostic with
        severity := (lastSeverity? f.check settings).getD f.diagnostic.severity }
  /-- Calls for different checks commute. -/
  swapped : ∀ before s t later, settings = before ++ s :: t :: later → s.check ≠ t.check →
    inspect m (.after settings) group = inspect m (.after (before ++ t :: s :: later)) group

theorem inspect_after (group : Group) (settings : List Setting) :
    inspect m (.after settings) group =
      ((findings m {} group).filter fun f => Setting.without f.check ∉ settings).map fun f =>
        { f.diagnostic with
          severity := (lastSeverity? f.check settings).getD f.diagnostic.severity } := by
  unfold inspect
  rw [findings_eq_filterMap, List.map_filterMap, ← List.filterMap_eq_map, List.filterMap_filter]
  refine List.filterMap_congr fun f hf => ?_
  have hseverity : f.diagnostic.severity = f.check.severity := severity_of_mem_findings hf
  unfold Profile.regrade?
  by_cases hoff : Setting.without f.check ∈ settings
  · have hdisabled : (Profile.after settings).isEnabled f.check = false := by
      rw [← Bool.not_eq_true, Profile.isEnabled_after]
      exact not_not.2 hoff
    simp [hdisabled, hoff]
  · simp only [(Profile.isEnabled_after f.check settings).2 hoff, hoff, not_false_eq_true,
      decide_true, if_true, Option.map_some, Function.comp_apply, hseverity]
    unfold Profile.severityOf
    rw [Profile.lookup_after]
    rfl

/-- Configuring an inspection only filters and grades its findings. -/
theorem regrades_after (group : Group) (settings : List Setting) :
    Regrades m group settings := by
  refine ⟨?_, ?_, inspect_after m group settings, ?_⟩
  · refine List.map_congr_left fun f hf => ?_
    unfold Finding.diagnostic
    rw [severity_of_mem_findings hf]
  · intro check
    have hoff : ∀ c, Setting.without c ∈ Setting.only check ↔ c ≠ check := by
      intro c
      have hall : c ∈ Check.all := by cases c <;> decide
      simp [Setting.only, hall]
    have hnone : ∀ c, lastSeverity? c (Setting.only check) = none := by
      intro c
      have hnil : (Setting.only check).filterMap (Setting.severity? c) = [] := by
        simp [Setting.only, Setting.severity?]
      unfold lastSeverity?
      rw [hnil]
      rfl
    rw [inspect_after]
    simp only [hoff, hnone, Option.getD_none, ne_eq, not_not]
    rfl
  · rintro before s t later rfl hne
    unfold inspect
    rw [findings_congr m (Profile.after_swap hne before later)]

end TypeAtlas.Inspection

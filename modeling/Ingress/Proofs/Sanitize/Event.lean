import Ingress.Proofs.Config.Limits
import Ingress.Proofs.Event
import Ingress.Proofs.Json.Sorted
import Ingress.Proofs.Sanitize.Names
import Ingress.Proofs.Validation.Exact
import Mathlib

/-!
# What a sanitized event is like

A report may be too full for an error in the data, so the data of a valid event is what sanitizing made
of it; the rest of the event has been checked.

* `lookup_event` : a field of a sanitized event;
* `IsClean` : what the limits ask of an event;
* `isClean_of_isValid` : an event that is read from a valid value, sanitized, is clean.
-/

namespace Ingress.Sanitize

open Json Grammar

/-! ## Fields and texts -/

def eventFields (l : Limits) (fields : Fields) : Fields :=
  fields.map fun f => (f.1, topField l f.1 f.2)

theorem keys_eventFields (l : Limits) (fields : Fields) :
    (eventFields l fields).map Prod.fst = fields.map Prod.fst := by
  unfold eventFields
  rw [List.map_map]
  rfl

/-- A field of a sanitized event. -/
theorem lookup_event (l : Limits) (key : String) (fields : Fields) :
    lookup key (eventFields l fields) = (lookup key fields).map (topField l key) :=
  lookup_map (topField l) key fields

theorem lookup_event_of {l : Limits} {key : String} {fields : Fields} {v : Value}
    (h : lookup key fields = some v) :
    lookup key (eventFields l fields) = some (topField l key v) := by
  rw [lookup_event, h, Option.map_some]

/-- The characters of game ids are printed ones. -/
theorem isControlCode_of_isIdentifier {c : Char} (h : Text.isIdentifier c = true) :
    Text.isControlCode c = false := by
  have hle : ∀ a b : Char, a ≤ b → a.toNat ≤ b.toNat := fun _ _ hab => hab
  have hrange : 45 ≤ c.toNat ∧ c.toNat ≤ 122 := by
    simp only [Text.isIdentifier, Bool.or_eq_true, Bool.and_eq_true, decide_eq_true_eq,
      beq_iff_eq] at h
    rcases h with (((⟨hlow, hhigh⟩ | ⟨hlow, hhigh⟩) | ⟨hlow, hhigh⟩) | rfl) | rfl
    · exact ⟨le_trans (by decide) (hle _ _ hlow), (hle _ _ hhigh).trans (by decide)⟩
    · exact ⟨le_trans (by decide) (hle _ _ hlow), (hle _ _ hhigh).trans (by decide)⟩
    · exact ⟨le_trans (by decide) (hle _ _ hlow), (hle _ _ hhigh).trans (by decide)⟩
    · decide
    · decide
  unfold Text.isControlCode
  simp only [Bool.or_eq_false_iff, Bool.and_eq_false_iff, decide_eq_false_iff_not]
  omega

/-- A game id is cut at most, and some of it is left. -/
theorem isGameId_topField {l : Limits} (hl : Limits.config.violations l = []) {v : Value}
    (h : IsGameId l.maxGameIdLength v) : IsGameId l.maxGameIdLength (topField l "game_id" v) := by
  obtain ⟨id, rfl, hlow, hhigh, hsafe⟩ := h
  have hcut := toList_string_of_printed
    (fun c hc => isControlCode_of_isIdentifier (hsafe c hc)) l.maxStringLength
  have hone := Limits.one_le_maxStringLength hl
  have hlength : (string l.maxStringLength id).length = min l.maxStringLength id.length := by
    rw [← String.length_toList, hcut, List.length_take, String.length_toList]
  refine ⟨_, rfl, by omega, by omega, fun c hc => hsafe c ?_⟩
  rw [hcut] at hc
  exact List.mem_of_mem_take hc

/-! ## Clean events -/

structure IsClean (l : Limits) (e : Event) : Prop where
  kind : e.kind ∈ l.allowedKinds
  finite : e.timestamp.isFinite = true
  nonneg : 0 ≤ e.timestamp.value
  gameId : 1 ≤ e.gameId.length ∧ e.gameId.length ≤ l.maxGameIdLength ∧
    ∀ c ∈ e.gameId.toList, Text.isIdentifier c = true
  data : Everywhere (Tidy l) (.object e.data) 1

variable {l : Limits} {nowMs : Int} {fields : Fields} {k : Kind} {e : Event}

/-- A type that is cut is no other type. -/
theorem kind_eq (hk : lookup "type" fields = some (.string k.name))
    (he : Event.Decoded (eventFields l fields) e) : e.kind = k := by
  have hname : string l.maxStringLength k.name = e.kind.name :=
    Event.kind_of_decoder (he.kind _ (lookup_event_of hk))
  have hsame := prefixFree_kinds.string_eq (name_mem_kinds k) (hname ▸ name_mem_kinds e.kind)
  exact Event.name_injective (hname.symm.trans hsame)

/-- The data is none, or the object of the event before, sanitized. -/
theorem data_eq (he : Event.Decoded (eventFields l fields) e) :
    (lookup "data" fields = none ∧ e.data = []) ∨
      ∃ v, lookup "data" fields = some v ∧ .object e.data = value l 1 v := by
  cases h : lookup "data" fields with
  | none =>
    refine .inl ⟨rfl, he.noData ?_⟩
    rw [keys_eventFields]
    exact lookup_eq_none_iff.1 h
  | some v =>
    have hobject : topField l "data" v = .object e.data := he.data _ (lookup_event_of h)
    cases v with
    | object fs => exact .inr ⟨.object fs, rfl, hobject.symm⟩
    | _ => cases hobject

/-- An event that is read from a valid value, sanitized, is clean. -/
theorem isClean_of_isValid (hl : Limits.config.violations l = []) {v : Value} (hsorted : v.Sorted)
    (hvalid : (Validation.validate l nowMs v).isValid = true)
    (h : Event.ofValue (event l v) = .ok e) : IsClean l e := by
  -- a valid report vouches for all but the data, which may hide errors behind its warnings
  obtain ⟨fields, k, rfl, hhead⟩ := Validation.isHeadOf_of_isValid l nowMs hvalid
  have hkeys : ((eventFields l fields).map Prod.fst).Nodup := by
    rw [keys_eventFields]
    exact nodup_keys hsorted.1
  have he := Event.decoded_of_ofValue hkeys h
  refine ⟨kind_eq hhead.kind he ▸ hhead.enabled, ?_, ?_, ?_, ?_⟩
  · obtain ⟨_, hn, n, rfl, -⟩ := hhead.timestamp
    rw [← Except.ok.inj (he.timestamp _ (lookup_event_of hn))]
    exact n.isFinite_toDouble
  · obtain ⟨_, hn, n, rfl, hnonneg, -⟩ := hhead.timestamp
    rw [← Except.ok.inj (he.timestamp _ (lookup_event_of hn)), Double.value_nonneg_iff]
    exact n.key_toDouble_nonneg.2 hnonneg
  · obtain ⟨v, hid, hgame⟩ := hhead.gameId
    obtain ⟨id, heq, hid'⟩ := isGameId_topField hl hgame
    have hdecoded := he.gameId _ (lookup_event_of hid)
    rw [heq] at hdecoded
    rwa [← Except.ok.inj hdecoded]
  · rcases data_eq he with ⟨-, hnone⟩ | ⟨w, -, hw⟩
    · rw [hnone]
      exact everywhere_object.2 ⟨⟨List.forall_mem_nil _, fun _ => rfl⟩, List.forall_mem_nil _⟩
    · rw [hw]
      exact everywhere_value (fun hfinite =>
        Limits.isMagnitude hl (Double.isNaN_of_isFinite hfinite)) w 1

end Ingress.Sanitize

import Ingress.Proofs.Sanitize.Event
import Ingress.Proofs.Sanitize.Rules
import Mathlib

/-!
# Sanitized events are events

Sanitizing scrubs an event that was found valid, and nothing looks at it again. It stays an event unless
it grows beyond the size of one, or a text is cut that names its kind, its hand or one of its cards.

* `isValid_event_iff_isEvent` : a sanitized value draws no warning, so its report is exact;
* `Lasts` : what has to be left of an event;
* `isEvent_event_iff` : a sanitized event against the grammar;
* `isValid_event_iff` : and against the checks.
-/

namespace Ingress.Sanitize

open Json Grammar Validation

variable {l : Limits} {nowMs : Int}

/-! ## Warnings -/

/-- The walk does not warn of a tidy value: no text of it is too long. -/
theorem rejecting_findings (v : Value) : ∀ (path : String) (depth : Nat),
    Everywhere (Tidy l) v depth → Rejecting (Structure.findings l path depth v) := by
  induction v using Value.induction with
  | null => exact fun _ _ _ => Rejecting.nil
  | bool b => exact fun _ _ _ => Rejecting.nil
  | number n =>
    intro path depth _
    unfold Structure.findings
    split
    · exact Rejecting.nil
    · exact Rejecting.singleton rfl
  | string s =>
    intro path depth h
    have hfits := (everywhere_string.1 h).1
    unfold Structure.findings
    rw [if_neg (by omega)]
    exact Rejecting.nil
  | array items ih =>
    intro path depth h
    have hitems : ∀ index, Rejecting (Structure.itemFindings l path depth index items) := by
      have hinside := (everywhere_array.1 h).2
      clear h
      induction items with
      | nil => exact fun _ => Rejecting.nil
      | cons v rest ihrest =>
        intro index
        obtain ⟨hv, hrest⟩ := List.forall_mem_cons.1 ih
        obtain ⟨hv', hrest'⟩ := List.forall_mem_cons.1 hinside
        exact (hv _ _ hv').append (ihrest hrest hrest' _)
    unfold Structure.findings
    split
    · exact Rejecting.singleton rfl
    · exact (Rejecting.ite rfl).append (hitems 0)
  | object fields ih =>
    intro path depth h
    have hfields : Rejecting (Structure.fieldFindings l path depth fields) := by
      have hinside := (everywhere_object.1 h).2
      clear h
      induction fields with
      | nil => exact Rejecting.nil
      | cons f rest ihrest =>
        obtain ⟨hv, hrest⟩ := List.forall_mem_cons.1 ih
        obtain ⟨hv', hrest'⟩ := List.forall_mem_cons.1 hinside
        refine Rejecting.append ?_ (ihrest hrest hrest')
        split
        · exact Rejecting.singleton rfl
        · exact hv _ _ hv'
    unfold Structure.findings
    split
    · exact Rejecting.singleton rfl
    · exact (Rejecting.ite rfl).append hfields

theorem leadingWarnings_event (hm : l.maxMagnitude.isFinite = true → IsMagnitude l.maxMagnitude)
    (v : Value) : Finding.leadingWarnings (findings l nowMs (event l v)) = [] := by
  by_contra hne
  obtain ⟨fields, data, hv, -, hdata, heq⟩ := findings_of_leadingWarnings l nowMs hne
  have htidy : Everywhere (Tidy l) (.object data) 1 := by
    cases v with
    | object fs =>
      cases hv
      obtain ⟨w, -, hw⟩ := Option.map_eq_some_iff.1 ((lookup_event l "data" fs).symm.trans hdata)
      have hwalked : topField l "data" w = .object data := hw
      cases w with
      | object inner => exact hwalked ▸ everywhere_value hm (.object inner) 1
      | _ => cases hwalked
    | _ => cases hv
  have hnone := (rejecting_findings _ "data" 1 htidy).append (rejecting_rule l fields data)
  rw [← heq] at hnone
  have hlength := Finding.length_leadingWarnings_le (findings l nowMs (event l v))
  rw [hnone] at hlength
  exact hne (List.length_eq_zero_iff.1 (Nat.le_zero.1 hlength))

/-- The report of a sanitized value is exact. -/
theorem isValid_event_iff_isEvent
    (hm : l.maxMagnitude.isFinite = true → IsMagnitude l.maxMagnitude) (v : Value) :
    (validate l nowMs (event l v)).isValid = true ↔ IsEvent l nowMs (event l v) := by
  have hreport := Report.isValid_ofFindings (findings l nowMs (event l v))
  rw [leadingWarnings_event hm v, and_iff_left (by decide)] at hreport
  rw [← clear_findings, clear_iff, ← hreport, Bool.not_eq_false, validate]

/-! ## What has to be left -/

/-- What has to be left of an event for it to stay one. -/
structure Lasts (l : Limits) (fields : Fields) : Prop where
  size : (event l (.object fields)).render.utf8ByteSize ≤ l.maxEventBytes
  kind : ∀ name, lookup "type" fields = some (.string name) → name.length ≤ l.maxStringLength
  hand : lookup "type" fields = some (.string Kind.handPlayed.name) →
    ∀ data, lookup "data" fields = some (.object data) → LastsHand l data

variable {fields : Fields} {k : Kind}

/-- The data of an event of a kind, sanitized. -/
theorem isData_value_iff (hm : IsMagnitude l.maxMagnitude) {data : Fields}
    (h : IsData l k (.object data)) :
    IsData l k (value l 1 (.object data)) ↔ (k = .handPlayed → LastsHand l data) := by
  obtain ⟨_, heq, hbounded, hrule⟩ := h
  cases heq
  obtain ⟨hself, hinside⟩ := everywhere_object.1 hbounded
  rw [← rule_value_iff hm hinside hrule]
  constructor
  · rintro ⟨_, heq, -, hrule'⟩
    rw [value_object hself] at heq
    cases heq
    exact hrule'
  · exact fun hrule' =>
      ⟨_, value_object hself, everywhere_bounded_value _ 1 hbounded, hrule'⟩

/-- A sanitized event is one again where enough of it is left. -/
theorem isEvent_event_iff (hl : Limits.config.violations l = []) (hm : IsMagnitude l.maxMagnitude)
    (h : IsEventOf l nowMs fields k) : IsEvent l nowMs (event l (.object fields)) ↔ Lasts l fields := by
  have hkind : lookup "type" (eventFields l fields) =
      some (.string (string l.maxStringLength k.name)) := lookup_event_of h.kind
  constructor
  · rintro ⟨_, j, heq, hj⟩
    cases heq
    have hname : string l.maxStringLength k.name = j.name :=
      Value.string.inj (Option.some.inj (hkind.symm.trans hj.kind))
    have hsame := prefixFree_kinds.string_eq (name_mem_kinds k) (hname ▸ name_mem_kinds j)
    -- what is left of the name of a kind names no other kind
    obtain rfl : k = j := Event.name_injective (hsame.symm.trans hname)
    refine ⟨hj.size, fun name hother => ?_, fun hhand data hdata => ?_⟩
    · rw [h.kind] at hother
      cases hother
      exact (prefixFree_kinds.string_eq_iff (name_mem_kinds k)).1 hsame
    · rw [h.kind] at hhand
      have hk := Event.name_injective (Value.string.inj (Option.some.inj hhand))
      exact (isData_value_iff hm (h.data _ hdata)).1 (hj.data _ (lookup_event_of hdata)) hk
  · intro hlasts
    have hsame := (prefixFree_kinds.string_eq_iff (name_mem_kinds k)).2 (hlasts.kind _ h.kind)
    refine ⟨eventFields l fields, k, rfl, ⟨?_, hsame ▸ hkind, h.enabled, ?_, ?_, fun hne => ?_⟩,
      hlasts.size, ?_⟩
    · unfold eventFields
      rw [List.forall_mem_map]
      exact h.keys
    · obtain ⟨_, hv, n, rfl, htime⟩ := h.timestamp
      exact ⟨_, lookup_event_of hv, n, rfl, htime⟩
    · obtain ⟨v, hv, hid⟩ := h.gameId
      exact ⟨_, lookup_event_of hv, isGameId_topField hl hid⟩
    · obtain ⟨v, hv⟩ := h.complete hne
      exact ⟨_, lookup_event_of hv⟩
    · intro w hw
      rw [lookup_event] at hw
      obtain ⟨v, hv, rfl⟩ := Option.map_eq_some_iff.1 hw
      obtain ⟨data, rfl, -⟩ := h.data v hv
      refine (isData_value_iff hm (h.data _ hv)).2 fun hk => hlasts.hand ?_ data hv
      rw [h.kind, hk]

/-- **Sanitizing an event may invalidate it**, but only through its size or a text that is cut. -/
theorem isValid_event_iff (hl : Limits.config.violations l = [])
    (hnumber : l.maxMagnitude.isNaN = false) {v : Value} (h : Clear (findings l nowMs v)) :
    (validate l nowMs (event l v)).isValid = true ↔ ∃ fields, v = .object fields ∧ Lasts l fields := by
  have hm := Limits.isMagnitude hl hnumber
  obtain ⟨fields, k, rfl, hevent⟩ := (clear_findings l nowMs v).1 h
  rw [isValid_event_iff_isEvent (fun _ => hm), isEvent_event_iff hl hm hevent]
  simp

/-! ## Names behind blanks -/

/-- Limits that cut every text to sixteen characters. -/
def brief : Limits := { Limits.standard with maxStringLength := 16 }

/-- The fields of a hand of one card, under a name. -/
def handNamed (name : String) : Fields :=
  [("data", .object [("cards_played", .array [.string "10H"]), ("hand_type", .string name)]),
    ("game_id", .string "g"), ("timestamp", .number (.ofInt 1700000000)),
    ("type", .string "hand_played")]

/-- The blanks ahead of a name are overlooked, but sanitizing leaves nothing else of it. -/
theorem isValid_blanks : Limits.config.violations brief = [] ∧
    (validate brief 1700000000000 (.object (handNamed "                Flush"))).isValid = true ∧
    (validate brief 1700000000000
      (event brief (.object (handNamed "                Flush")))).isValid = false := by
  decide +kernel

/-- The hand lasts where its name does. -/
theorem lasts_handNamed {name : String} (hname : IsHandName (string brief.maxStringLength name))
    (hsize : (event brief (.object (handNamed name))).render.utf8ByteSize ≤ brief.maxEventBytes) :
    Lasts brief (handNamed name) := by
  have htype : lookup "type" (handNamed name) = some (.string "hand_played") := by
    simp [handNamed, lookup]
  have hdata : lookup "data" (handNamed name) =
      some (.object [("cards_played", .array [.string "10H"]), ("hand_type", .string name)]) := by
    simp [handNamed, lookup]
  refine ⟨hsize, fun other hother => ?_, fun _ data hother => ?_⟩
  · rw [htype] at hother
    cases hother
    decide +kernel
  · rw [hdata] at hother
    cases hother
    refine ⟨fun other hother => ?_, fun cards hother => ?_⟩
    · have hsame : name = other := by simpa [lookup] using hother
      exact hsame ▸ hname
    · have hsame : [Value.string "10H"] = cards := by simpa [lookup] using hother
      rw [← hsame, List.forall_mem_singleton]
      show "10H".length ≤ 16
      decide +kernel

/-- A name that a blank and a tab fit around lasts. -/
theorem isValid_padded :
    Clear (findings brief 1700000000000 (.object (handNamed "\tFlush_Five "))) ∧
    (validate brief 1700000000000
      (event brief (.object (handNamed "\tFlush_Five ")))).isValid = true := by
  have hclear : Clear (findings brief 1700000000000 (.object (handNamed "\tFlush_Five "))) := by
    rw [clear_iff]
    decide +kernel
  refine ⟨hclear, (isValid_event_iff (by decide +kernel) (by decide +kernel) hclear).2 ⟨_, rfl, ?_⟩⟩
  refine lasts_handNamed ?_ (by decide +kernel)
  unfold IsHandName
  decide +kernel

end Ingress.Sanitize

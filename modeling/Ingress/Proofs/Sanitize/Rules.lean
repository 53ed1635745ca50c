import Ingress.Proofs.Json.Record
import Ingress.Proofs.Sanitize.Names
import Ingress.Proofs.Validation.Exact
import Mathlib

/-!
# Rules of kinds on sanitized data

Numbers that keep their rule go on keeping it, and so does the structure of the data. Texts may be cut,
so that a hand is known no more, or a card is none.

* `everywhere_bounded_value` : data within its limits stays so;
* `has_within`, `mayHave_within` : fields after their values are sanitized;
* `isNumber_value`, `isInteger_value`, ... : numbers;
* `FitsCard`, `isCard_value_iff` : the cards that stay cards;
* `LastsHand`, `rule_hand_iff`, `rule_value_iff` : the data that goes on keeping the rule of its kind.
-/

namespace Ingress.Sanitize

open Json Grammar

variable {l : Limits} {depth : Nat}

/-! ## Structure -/

/-- No element of a bounded array is dropped. -/
theorem value_array {vs : List Value} (h : Bounded l (.array vs) depth) :
    value l depth (.array vs) = .array (vs.map (value l (depth + 1))) := by
  unfold value
  rw [if_neg (by have := h.1; omega), items_eq, List.take_of_length_le h.2]

/-- The fields of an object, each of whose values is sanitized. -/
def fieldsWithin (l : Limits) (depth : Nat) (fs : Fields) : Fields :=
  fs.map fun f => (f.1, value l depth f.2)

/-- No field of a bounded object is dropped. -/
theorem value_object {fs : Fields} (h : Bounded l (.object fs) depth) :
    value l depth (.object fs) = .object (fieldsWithin l (depth + 1) fs) := by
  have hkeys : fs.filter (fun f => decide (f.1.length ≤ l.maxKeyLength)) = fs :=
    List.filter_eq_self.2 fun f hf => decide_eq_true (h.2.2 f hf)
  unfold value
  rw [if_neg (by have := h.1; omega), fields_eq, hkeys]
  rfl

theorem lookup_fieldsWithin (key : String) (fs : Fields) :
    lookup key (fieldsWithin l depth fs) = (lookup key fs).map (value l depth) :=
  lookup_map (fun _ => value l depth) key fs

/-- Data within its limits stays so. -/
theorem everywhere_bounded_value (v : Value) : ∀ depth,
    Everywhere (Bounded l) v depth → Everywhere (Bounded l) (value l depth v) depth := by
  induction v using Value.induction with
  | null => exact fun _ h => h
  | bool b => exact fun _ h => h
  | number n => exact fun _ _ => everywhere_number.2 trivial
  | string s => exact fun _ _ => everywhere_string.2 trivial
  | array vs ih =>
    intro depth h
    obtain ⟨hself, hinside⟩ := everywhere_array.1 h
    rw [value_array hself, everywhere_array]
    refine ⟨⟨hself.1, by rw [List.length_map]; exact hself.2⟩, ?_⟩
    rw [List.forall_mem_map]
    exact fun v hv => ih v hv _ (hinside v hv)
  | object fs ih =>
    intro depth h
    obtain ⟨hself, hinside⟩ := everywhere_object.1 h
    rw [value_object hself, everywhere_object]
    refine ⟨⟨hself.1, by rw [fieldsWithin, List.length_map]; exact hself.2.1, ?_⟩, ?_⟩
    · unfold fieldsWithin
      rw [List.forall_mem_map]
      exact hself.2.2
    · unfold fieldsWithin
      rw [List.forall_mem_map]
      exact fun f hf => ih f hf _ (hinside f hf)

/-! ## Fields -/

section Fields

variable {fs : Fields} {key : String} {P Q : Value → Prop}

theorem mayHave_within (h : MayHave fs key P) (hPQ : ∀ v, P v → Q (value l depth v)) :
    MayHave (fieldsWithin l depth fs) key Q := by
  intro w hw
  rw [lookup_fieldsWithin] at hw
  obtain ⟨v, hv, rfl⟩ := Option.map_eq_some_iff.1 hw
  exact hPQ v (h v hv)

theorem has_within (h : Has fs key P) (hPQ : ∀ v, P v → Q (value l depth v)) :
    Has (fieldsWithin l depth fs) key Q := by
  obtain ⟨v, hv, hP⟩ := h
  exact ⟨_, by rw [lookup_fieldsWithin, hv]; rfl, hPQ v hP⟩

end Fields

/-! ## Numbers -/

section Numbers

variable (hm : IsMagnitude l.maxMagnitude) {v : Value}

include hm

theorem isNumber_value {high : ℚ} (h : IsNumber high v) : IsNumber high (value l depth v) := by
  obtain ⟨n, rfl, hnonneg, hhigh⟩ := h
  obtain ⟨hnonneg', hle⟩ := value_number_of_nonneg hm hnonneg
  exact ⟨_, rfl, hnonneg', hle.trans hhigh⟩

theorem isScore_value (h : IsScore v) : IsScore (value l depth v) := by
  obtain ⟨n, rfl, hnonneg⟩ := h
  exact ⟨_, rfl, (value_number_of_nonneg hm hnonneg).1⟩

/-- An integer from one on stays one: the magnitude is one at least. -/
theorem isInteger_value {high : ℤ} (h : IsInteger 1 high v) :
    IsInteger 1 high (value l depth v) := by
  obtain ⟨n, fits, rfl, hlow, hhigh⟩ := h
  obtain ⟨b, hb, -, fits', heq⟩ := number_whole hm n fits
  exact ⟨_, fits', congrArg Value.number heq, by omega, by omega⟩

/-- A shop stays a shop. -/
theorem isShop_value (hbounded : Everywhere (Bounded l) v depth) (h : IsShop v) :
    IsShop (value l depth v) := by
  obtain ⟨items, rfl, hcount, hitems⟩ := h
  obtain ⟨hself, hinside⟩ := everywhere_array.1 hbounded
  rw [value_array hself]
  refine ⟨_, rfl, by rwa [List.length_map], ?_⟩
  rw [List.forall_mem_map]
  intro item hitem
  have hbound := hinside item hitem
  obtain ⟨fs, rfl, hcost⟩ := hitems item hitem
  exact ⟨_, value_object hbound.here, has_within hcost fun _ => isNumber_value hm⟩

end Numbers

/-! ## Texts -/

theorem isHand_value_iff {name : String} :
    IsHand (value l depth (.string name)) ↔ IsHandName (string l.maxStringLength name) := by
  constructor
  · rintro ⟨_, heq, hname⟩
    cases heq
    exact hname
  · exact fun hname => ⟨_, rfl, hname⟩

/-- The texts of a card that name its rank and its suit are not cut. -/
def FitsCard (l : Limits) : Value → Prop
  | .string code => code.length ≤ l.maxStringLength
  | .object card => ∀ key ∈ ["rank", "suit"], ∀ text, lookup key card = some (.string text) →
      text.length ≤ l.maxStringLength
  | _ => True

theorem isCard_string_iff {code : String} : IsCard (.string code) ↔ code ∈ cardCodes := by
  rw [mem_cardCodes]
  constructor
  · intro h
    cases h with
    | code suit known => exact ⟨_, known, suit, rfl⟩
  · rintro ⟨rank, known, suit, rfl⟩
    exact .code suit known

theorem isCard_object_iff {card : Fields} : IsCard (.object card) ↔
    (∃ rank ∈ rankNames, lookup "rank" card = some (.string rank)) ∧
      ∃ suit ∈ suits.map Suit.name, lookup "suit" card = some (.string suit) := by
  constructor
  · intro h
    cases h with
    | parts suit hrank known hsuit =>
      exact ⟨⟨_, known, hrank⟩, _, List.mem_map_of_mem (mem_suits suit), hsuit⟩
  · rintro ⟨⟨rank, known, hrank⟩, name, hname, hsuit⟩
    obtain ⟨suit, -, rfl⟩ := List.mem_map.1 hname
    exact .parts suit hrank known hsuit

/-- A field that holds a name, after the name is cut. -/
theorem holdsName_iff {names : List String} (hnames : PrefixFree names) {key name : String}
    {fs : Fields} (h : lookup key fs = some (.string name)) (hname : name ∈ names) :
    (∃ other ∈ names, lookup key (fieldsWithin l depth fs) = some (.string other)) ↔
      name.length ≤ l.maxStringLength := by
  have hcut : lookup key (fieldsWithin l depth fs) =
      some (.string (string l.maxStringLength name)) := by
    rw [lookup_fieldsWithin, h]
    rfl
  rw [← hnames.string_mem_iff hname, hcut]
  constructor
  · rintro ⟨other, hother, heq⟩
    cases heq
    exact hother
  · exact fun hmem => ⟨_, hmem, rfl⟩

/-- A card stays one where its texts are not cut. -/
theorem isCard_value_iff {c : Value} (hbounded : Everywhere (Bounded l) c depth) (hc : IsCard c) :
    IsCard (value l depth c) ↔ FitsCard l c := by
  cases c with
  | string code =>
    exact isCard_string_iff.trans (prefixFree_codes.string_mem_iff (isCard_string_iff.1 hc))
  | object card =>
    obtain ⟨⟨rank, known, hrank⟩, suit, hsuit, hname⟩ := isCard_object_iff.1 hc
    rw [value_object hbounded.here, isCard_object_iff, holdsName_iff prefixFree_ranks hrank known,
      holdsName_iff prefixFree_suits hname hsuit]
    unfold FitsCard
    simp [hrank, hname]
  | _ => cases hc

/-- Cards stay cards where their texts are not cut. -/
theorem isCards_value_iff {maxSize : Nat} {cards : List Value}
    (hbounded : Everywhere (Bounded l) (.array cards) depth) (h : IsCards maxSize (.array cards)) :
    IsCards maxSize (value l depth (.array cards)) ↔ ∀ c ∈ cards, FitsCard l c := by
  obtain ⟨hself, hinside⟩ := everywhere_array.1 hbounded
  obtain ⟨_, heq, hlow, hhigh, hcards⟩ := h
  cases heq
  rw [value_array hself]
  constructor
  · rintro ⟨_, heq, -, -, hall⟩ c hc
    cases heq
    rw [List.forall_mem_map] at hall
    exact (isCard_value_iff (hinside c hc) (hcards c hc)).1 (hall c hc)
  · intro hfits
    refine ⟨_, rfl, by rwa [List.length_map], by rwa [List.length_map], ?_⟩
    rw [List.forall_mem_map]
    exact fun c hc => (isCard_value_iff (hinside c hc) (hcards c hc)).2 (hfits c hc)

/-! ## Rules -/

/-- The texts of a hand that its rule reads are not cut to something else. -/
structure LastsHand (l : Limits) (data : Fields) : Prop where
  name : ∀ name, lookup "hand_type" data = some (.string name) →
    IsHandName (string l.maxStringLength name)
  cards : ∀ cards, lookup "cards_played" data = some (.array cards) → ∀ c ∈ cards, FitsCard l c

section Rules

variable (hm : IsMagnitude l.maxMagnitude) {data : Fields}
  (hbounded : ∀ f ∈ data, Everywhere (Bounded l) f.2 depth)

include hm hbounded

theorem rule_hand_iff (h : Rule l data .handPlayed) :
    Rule l (fieldsWithin l depth data) .handPlayed ↔ LastsHand l data := by
  obtain ⟨⟨_, hname, name, rfl, -⟩, ⟨_, hcards, cards, rfl, hcount⟩, hchips, hmult⟩ := h
  have hname' : lookup "hand_type" (fieldsWithin l depth data) =
      some (value l depth (.string name)) := by
    rw [lookup_fieldsWithin, hname]
    rfl
  have hcards' : lookup "cards_played" (fieldsWithin l depth data) =
      some (value l depth (.array cards)) := by
    rw [lookup_fieldsWithin, hcards]
    rfl
  have hstill := isCards_value_iff (hbounded _ (mem_of_lookup hcards)) ⟨cards, rfl, hcount⟩
  constructor
  · rintro ⟨hhand, hrow, -, -⟩
    rw [has_some hname', isHand_value_iff] at hhand
    rw [has_some hcards', hstill] at hrow
    refine ⟨fun other hother => ?_, fun row hother => ?_⟩
    · rw [hname] at hother
      cases hother
      exact hhand
    · rw [hcards] at hother
      cases hother
      exact hrow
  · exact fun hlasts =>
      ⟨(has_some hname').2 (isHand_value_iff.2 (hlasts.name name hname)),
        (has_some hcards').2 (hstill.2 (hlasts.cards cards hcards)),
        mayHave_within hchips fun _ => isNumber_value hm,
        mayHave_within hmult fun _ => isNumber_value hm⟩

theorem rule_value {k : Kind} (hk : k ≠ .handPlayed) (h : Rule l data k) :
    Rule l (fieldsWithin l depth data) k := by
  cases k with
  | handPlayed => exact absurd rfl hk
  | shopEntered =>
    obtain ⟨hante, hround, hmoney, hshop⟩ := h
    refine ⟨has_within hante fun _ => isInteger_value hm,
      has_within hround fun _ => isInteger_value hm, has_within hmoney fun _ => isNumber_value hm, fun w hw => ?_⟩
    rw [lookup_fieldsWithin] at hw
    obtain ⟨v, hv, rfl⟩ := Option.map_eq_some_iff.1 hw
    exact isShop_value hm (hbounded _ (mem_of_lookup hv)) (hshop v hv)
  | cardPurchased => exact has_within h fun _ => isNumber_value hm
  | jokerActivated =>
    exact ⟨mayHave_within h.1 fun _ => isNumber_value hm,
      mayHave_within h.2 fun _ => isNumber_value hm⟩
  | gameOver | roundComplete | anteComplete =>
    exact ⟨mayHave_within h.1 fun _ => isInteger_value hm,
      mayHave_within h.2.1 fun _ => isInteger_value hm,
      mayHave_within h.2.2 fun _ => isScore_value hm⟩
  | gameStart | action | stateUpdate | heartbeat => trivial

/-- Only a hand may break its rule by being sanitized. -/
theorem rule_value_iff {k : Kind} (h : Rule l data k) :
    Rule l (fieldsWithin l depth data) k ↔ (k = .handPlayed → LastsHand l data) := by
  by_cases hk : k = .handPlayed
  · subst hk
    rw [rule_hand_iff hm hbounded h]
    simp
  · exact iff_of_true (rule_value hm hbounded hk h) fun hhand => absurd hhand hk

end Rules

end Ingress.Sanitize

import Ingress.Metrics.Export
import Ingress.Proofs.Json.Sorted
import Ingress.Proofs.Table
import Mathlib

/-!
# The text of a key tells the key

In label values quotes are escaped and backslashes are not, so a value that ends in a backslash makes the quote
behind it look escaped, and a reader can take two values and what stands between them for one. Nothing can be
gained from that: a quote that opens a value comes after an equals sign, so whoever has passed over a closing
quote takes the next opening quote for a closing one, and stays one quote behind for good. At the last brace one
of the two readings is inside a value.

* `isName` : the texts that names of metrics and labels are made of; `Key.IsPlain` : a key of such names;
* `escaped`, `following` : the characters of a value, and those behind its closing quote;
* `escaped_append_ne_following` : a reading one quote behind does not come to an end;
* `escaped_append_inj`, `following_inj`, `labelsText_inj` : values, what follows them, and all labels are read
  in one way;
* `render_unambiguous` : texts of plain keys are equal for equal keys only, and no two metrics of a snapshot
  are merged.
-/

namespace Ingress.Metrics

/-! ## Names -/

/-- Letters, digits and underscore of ASCII. -/
def isNameChar (c : Char) : Bool :=
  ('A' ≤ c && c ≤ 'Z') || ('a' ≤ c && c ≤ 'z') || ('0' ≤ c && c ≤ '9') || c == '_'

/-- The texts that names of metrics and of labels are made of. -/
def isName (s : String) : Bool := s.toList.all isNameChar

theorem not_mem_of_isName {s : String} (h : isName s = true) {c : Char} (hc : isNameChar c = false) :
    c ∉ s.toList := by
  intro hmem
  rw [List.all_eq_true.1 h c hmem] at hc
  cases hc

/-- Every label has a proper name. -/
def ProperLabels (labels : Labels) : Prop := ∀ l ∈ labels, isName l.1 = true

namespace Key

/-- A key of proper names; the values of its labels are any texts. -/
structure IsPlain (k : Key) : Prop where
  name : isName k.name = true
  labels : ProperLabels k.labels

/-! ## Values between quotes -/

def escaped (value : List Char) : List Char := value.flatMap escape

theorem escaped_quote (value : List Char) : escaped ('"' :: value) = '\\' :: '"' :: escaped value := rfl

theorem escaped_cons {c : Char} (h : c ≠ '"') (value : List Char) :
    escaped (c :: value) = c :: escaped value := by
  unfold escaped
  rw [List.flatMap_cons, escape, if_neg h]
  rfl

/-- A value that is read from a quote on is closed by it. -/
theorem eq_nil_of_escaped_append {value rest text : List Char}
    (h : escaped value ++ '"' :: rest = '"' :: text) : value = [] ∧ rest = text := by
  cases value with
  | nil => exact ⟨rfl, List.tail_eq_of_cons_eq h⟩
  | cons c value =>
    by_cases hc : c = '"'
    · subst hc
      rw [escaped_quote] at h
      exact absurd (List.head_eq_of_cons_eq h) (by decide)
    · rw [escaped_cons hc] at h
      exact absurd (List.head_eq_of_cons_eq h) hc

/-- A quote after an equals sign is not escaped, so the first one closes the value. -/
theorem rest_eq_of_escaped_append {rest text : List Char} (front : List Char) :
    ∀ {value : List Char}, '"' ∉ front →
      escaped value ++ '"' :: rest = front ++ '=' :: '"' :: text → rest = text := by
  induction front with
  | nil =>
    intro value _ h
    cases value with
    | nil => exact absurd (List.head_eq_of_cons_eq h) (by decide)
    | cons c value =>
      by_cases hc : c = '"'
      · subst hc
        rw [escaped_quote] at h
        exact absurd (List.head_eq_of_cons_eq h) (by decide)
      · rw [escaped_cons hc] at h
        exact (eq_nil_of_escaped_append (List.tail_eq_of_cons_eq h)).2
  | cons d front ih =>
    intro value hfront h
    obtain ⟨hd, hfront⟩ := not_or.1 (mt List.mem_cons.2 hfront)
    cases value with
    | nil => exact absurd (List.head_eq_of_cons_eq h) hd
    | cons c value =>
      by_cases hc : c = '"'
      · -- the quote of the value would stand in `front`, or in place of the equals sign
        subst hc
        rw [escaped_quote] at h
        have htail : '"' :: (escaped value ++ '"' :: rest) = front ++ '=' :: '"' :: text :=
          List.tail_eq_of_cons_eq h
        cases front with
        | nil => exact absurd (List.head_eq_of_cons_eq htail) (by decide)
        | cons e front => exact absurd (List.mem_cons.2 (.inl (List.head_eq_of_cons_eq htail))) hfront
      · rw [escaped_cons hc] at h
        exact ih hfront (List.tail_eq_of_cons_eq h)

/-! ## Labels -/

/-- Texts up to the first of a character are read off the whole. -/
theorem append_cons_inj {c : Char} {front : List Char} (h : c ∉ front) : ∀ {front' rest rest' : List Char},
    c ∉ front' → front ++ c :: rest = front' ++ c :: rest' → front = front' ∧ rest = rest' := by
  induction front with
  | nil =>
    intro front' rest rest' h' htext
    cases front' with
    | nil => exact ⟨rfl, List.tail_eq_of_cons_eq htext⟩
    | cons d front' => exact absurd (List.mem_cons.2 (.inl (List.head_eq_of_cons_eq htext))) h'
  | cons d front ih =>
    intro front' rest rest' h' htext
    cases front' with
    | nil => exact absurd (List.mem_cons.2 (.inl (List.head_eq_of_cons_eq htext).symm)) h
    | cons d' front' =>
      obtain ⟨hfront, hrest⟩ := ih (mt (List.mem_cons_of_mem d) h) (mt (List.mem_cons_of_mem d') h')
        (List.tail_eq_of_cons_eq htext)
      exact ⟨by rw [List.head_eq_of_cons_eq htext, hfront], hrest⟩

def labelChars (label : String × String) : List Char :=
  label.1.toList ++ '=' :: '"' :: (escaped label.2.toList ++ ['"'])

/-- What follows the closing quote of a value: the labels behind it, and the closing brace. -/
def following : Labels → List Char
  | [] => ['\x7d']
  | l :: rest => ',' :: (labelChars l ++ following rest)

theorem labelChars_append (l : String × String) (text : List Char) :
    labelChars l ++ text = l.1.toList ++ '=' :: '"' :: (escaped l.2.toList ++ '"' :: text) := by
  simp [labelChars]

/-- A reading that is one quote behind does not come to an end. -/
theorem escaped_append_ne_following (n : Nat) : ∀ {value : List Char} {labels others : Labels},
    ProperLabels labels → ProperLabels others → labels.length + others.length = n →
      escaped value ++ '"' :: following labels ≠ following others := by
  induction n with
  | zero =>
    intro value labels others _ _ hn h
    obtain rfl : others = [] := List.eq_nil_of_length_eq_zero (by omega)
    have hquote : '"' ∈ following [] := h ▸ List.mem_append_right _ List.mem_cons_self
    exact absurd hquote (by decide)
  | succ n ih =>
    intro value labels others hlabels hothers hn h
    cases others with
    | nil =>
      have hquote : '"' ∈ following [] := h ▸ List.mem_append_right _ List.mem_cons_self
      exact absurd hquote (by decide)
    | cons l rest =>
      obtain ⟨hl, hrest⟩ := List.forall_mem_cons.1 hothers
      have hfront : '"' ∉ ',' :: l.1.toList := by
        rw [List.mem_cons, not_or]
        exact ⟨by decide, not_mem_of_isName hl (by decide)⟩
      rw [following, labelChars_append] at h
      -- the opening quote of `l` has closed the value, so now the other reading is behind
      have hbehind := rest_eq_of_escaped_append (',' :: l.1.toList) hfront h
      rw [List.length_cons] at hn
      exact ih hrest hlabels (by omega) hbehind.symm

/-- A value is read in one way, and so is what follows it. -/
theorem escaped_append_inj {labels others : Labels} (hlabels : ProperLabels labels)
    (hothers : ProperLabels others) (value : List Char) : ∀ {value' : List Char},
      escaped value ++ '"' :: following labels = escaped value' ++ '"' :: following others →
        value = value' ∧ following labels = following others := by
  induction value with
  | nil =>
    intro value' h
    obtain ⟨hvalue, hrest⟩ := eq_nil_of_escaped_append h.symm
    exact ⟨hvalue.symm, hrest.symm⟩
  | cons c value ih =>
    intro value' h
    cases value' with
    | nil => exact absurd (eq_nil_of_escaped_append h).1 (List.cons_ne_nil c value)
    | cons d value' =>
      by_cases hc : c = '"' <;> by_cases hd : d = '"'
      · subst hc hd
        rw [escaped_quote, escaped_quote] at h
        obtain ⟨hvalue, hrest⟩ := ih (List.tail_eq_of_cons_eq (List.tail_eq_of_cons_eq h))
        exact ⟨congrArg _ hvalue, hrest⟩
      · -- the second value ends in the backslash that escapes the quote of the first
        subst hc
        rw [escaped_quote, escaped_cons hd] at h
        have hend := (eq_nil_of_escaped_append (List.tail_eq_of_cons_eq h).symm).2
        exact absurd hend.symm (escaped_append_ne_following _ hlabels hothers rfl)
      · subst hd
        rw [escaped_quote, escaped_cons hc] at h
        have hend := (eq_nil_of_escaped_append (List.tail_eq_of_cons_eq h)).2
        exact absurd hend.symm (escaped_append_ne_following _ hothers hlabels rfl)
      · rw [escaped_cons hc, escaped_cons hd] at h
        obtain ⟨hvalue, hrest⟩ := ih (List.tail_eq_of_cons_eq h)
        exact ⟨by rw [List.head_eq_of_cons_eq h, hvalue], hrest⟩

theorem following_inj {labels : Labels} (hlabels : ProperLabels labels) : ∀ {others : Labels},
    ProperLabels others → following labels = following others → labels = others := by
  induction labels with
  | nil =>
    intro others _ h
    cases others with
    | nil => rfl
    | cons l rest => exact absurd (List.head_eq_of_cons_eq h) (by decide)
  | cons l labels ih =>
    intro others hothers h
    obtain ⟨hl, hlabels⟩ := List.forall_mem_cons.1 hlabels
    cases others with
    | nil => exact absurd (List.head_eq_of_cons_eq h) (by decide)
    | cons l' others =>
      obtain ⟨hl', hothers⟩ := List.forall_mem_cons.1 hothers
      rw [following, following, labelChars_append, labelChars_append] at h
      obtain ⟨hname, htail⟩ := append_cons_inj (c := '=') (not_mem_of_isName hl (by decide))
        (not_mem_of_isName hl' (by decide)) (List.tail_eq_of_cons_eq h)
      obtain ⟨hvalue, hrest⟩ :=
        escaped_append_inj hlabels hothers _ (List.tail_eq_of_cons_eq htail)
      rw [ih hlabels hothers hrest,
        Prod.ext (String.toList_inj.1 hname) (String.toList_inj.1 hvalue)]

theorem toList_labelText (l : String × String) : (labelText l).toList = labelChars l := by
  simp [labelText, labelChars, escaped]

theorem intercalate_labelChars (l : String × String) (rest : Labels) :
    [','].intercalate ((l :: rest).map labelChars) ++ ['\x7d'] = labelChars l ++ following rest := by
  induction rest generalizing l with
  | nil =>
    rw [List.map_singleton, List.intercalate_singleton]
    rfl
  | cons l' rest ih =>
    rw [List.map_cons, List.map_cons, List.intercalate_cons_cons, List.append_assoc,
      ← List.map_cons, ih l', List.append_assoc]
    rfl

theorem toList_labelsText_cons (l : String × String) (rest : Labels) :
    (labelsText (l :: rest)).toList = '\x7b' :: (labelChars l ++ following rest) := by
  have hlabels : ((l :: rest).map labelText).map String.toList = (l :: rest).map labelChars := by
    rw [List.map_map]
    exact List.map_congr_left fun l _ => toList_labelText l
  show ("\x7b" ++ ",".intercalate ((l :: rest).map labelText) ++ "\x7d").toList = _
  rw [String.toList_append, String.toList_append, String.toList_intercalate, hlabels,
    ← intercalate_labelChars]
  rfl

/-- Labels are read off their text. -/
theorem labelsText_inj {labels others : Labels} (hlabels : ProperLabels labels)
    (hothers : ProperLabels others)
    (h : (labelsText labels).toList = (labelsText others).toList) : labels = others := by
  cases labels with
  | nil =>
    cases others with
    | nil => rfl
    | cons l rest =>
      rw [toList_labelsText_cons] at h
      cases h
  | cons l rest =>
    cases others with
    | nil =>
      rw [toList_labelsText_cons] at h
      cases h
    | cons l' rest' =>
      rw [toList_labelsText_cons, toList_labelsText_cons] at h
      exact following_inj hlabels hothers (congrArg (',' :: ·) (List.tail_eq_of_cons_eq h))

/-! ## Keys -/

/-- What stands in front of the labels ends at the first brace. -/
theorem append_labelsText_inj {front front' : List Char} (h : '\x7b' ∉ front) (h' : '\x7b' ∉ front')
    {labels others : Labels} (htext : front ++ (labelsText labels).toList =
      front' ++ (labelsText others).toList) :
    front = front' ∧ (labelsText labels).toList = (labelsText others).toList := by
  cases labels with
  | nil =>
    cases others with
    | nil => exact ⟨List.append_cancel_right htext, rfl⟩
    | cons l rest =>
      rw [toList_labelsText_cons, show (labelsText []).toList = [] from rfl, List.append_nil] at htext
      exact absurd (htext ▸ List.mem_append_right _ List.mem_cons_self) h
  | cons l rest =>
    cases others with
    | nil =>
      rw [toList_labelsText_cons, show (labelsText []).toList = [] from rfl, List.append_nil] at htext
      exact absurd (htext ▸ List.mem_append_right _ List.mem_cons_self) h'
    | cons l' rest' =>
      rw [toList_labelsText_cons, toList_labelsText_cons] at htext ⊢
      obtain ⟨hfront, hrest⟩ := append_cons_inj h h' htext
      exact ⟨hfront, congrArg _ hrest⟩

/-- A plain key is read off its text. -/
theorem render_inj {suffix : String} (hsuffix : isName suffix = true) (front : String) {k k' : Key}
    (hk : k.IsPlain) (hk' : k'.IsPlain) (h : k.render front suffix = k'.render front suffix) :
    k = k' := by
  have hbrace : ∀ {k : Key}, k.IsPlain → '\x7b' ∉ k.name.toList ++ suffix.toList := by
    intro k hk
    rw [List.mem_append, not_or]
    exact ⟨not_mem_of_isName hk.name (by decide), not_mem_of_isName hsuffix (by decide)⟩
  have hchars := congrArg String.toList h
  unfold render at hchars
  simp only [String.toList_append, List.append_assoc, List.append_cancel_left_eq] at hchars
  rw [← List.append_assoc, ← List.append_assoc] at hchars
  obtain ⟨hname, hlabels⟩ := append_labelsText_inj (hbrace hk) (hbrace hk') hchars
  have hnames : k.name = k'.name := String.toList_inj.1 (List.append_cancel_right hname)
  have hsame := labelsText_inj hk.labels hk'.labels hlabels
  obtain ⟨name, labels⟩ := k
  obtain ⟨name', labels'⟩ := k'
  rw [Key.mk.injEq]
  exact ⟨hnames, hsame⟩

end Key

/-! ## Snapshots -/

/-- Every metric has a plain key. -/
structure Collector.IsPlain (c : Collector) : Prop where
  counters : ∀ e ∈ c.counters.entries, e.1.IsPlain
  gauges : ∀ e ∈ c.gauges.entries, e.1.IsPlain
  histograms : ∀ e ∈ c.histograms.entries, e.1.IsPlain

/-- Entries under texts stand one to one for those of a table: no text comes twice, under the text of a plain key
stands what the table has for the key, read by `f`, and the fields of a JSON object of them are all there. -/
structure Unmerged {ν μ : Type} (t : Table Key ν) (f : ν → μ) (entries : List (String × μ)) : Prop where
  nodup : (entries.map Prod.fst).Nodup
  mem_iff : ∀ k : Key, k.IsPlain → ∀ x, (k.text, x) ∈ entries ↔ (t.get? k).map f = some x
  fields : ∀ write : μ → Json.Value, (Json.sortFields (entries.map fun e => (e.1, write e.2))).Perm
    (entries.map fun e => (e.1, write e.2))

theorem unmerged_of_plain {ν μ : Type} (t : Table Key ν) (f : ν → μ)
    (hplain : ∀ e ∈ t.entries, e.1.IsPlain) :
    Unmerged t f (t.entries.map fun e => (e.1.text, f e.2)) := by
  have hinj : ∀ {k k' : Key}, k.IsPlain → k'.IsPlain → k.text = k'.text → k = k' :=
    fun hk hk' => Key.render_inj rfl "" hk hk'
  have hnodup : ((t.entries.map fun e => (e.1.text, f e.2)).map Prod.fst).Nodup := by
    rw [List.map_map, show (Prod.fst ∘ fun e : Key × ν => (e.1.text, f e.2)) = Key.text ∘ Prod.fst from rfl,
      ← List.map_map]
    refine List.Nodup.map_on (fun k hk k' hk' => ?_) t.nodup
    obtain ⟨e, he, rfl⟩ := List.mem_map.1 hk
    obtain ⟨e', he', rfl⟩ := List.mem_map.1 hk'
    exact hinj (hplain e he) (hplain e' he')
  refine ⟨hnodup, fun k hk x => ?_, fun write => Json.sortFields_perm ?_⟩
  · rw [List.mem_map, Option.map_eq_some_iff]
    constructor
    · rintro ⟨⟨k', v⟩, he, heq⟩
      obtain ⟨htext, rfl⟩ := Prod.ext_iff.1 heq
      obtain rfl : k' = k := hinj (hplain _ he) hk htext
      exact ⟨v, Table.get?_of_mem he, rfl⟩
    · rintro ⟨v, hv, rfl⟩
      exact ⟨(k, v), Table.mem_of_get? hv, rfl⟩
  · rwa [List.map_map]

/-- The three kinds of metrics of a collector are in its snapshot, one to one. -/
structure Mirrors (c : Collector) (s : Snapshot) : Prop where
  counters : Unmerged c.counters id s.counters
  gauges : Unmerged c.gauges id s.gauges
  histograms : Unmerged c.histograms Histogram.summary s.histograms

/-- **Rendered keys are unambiguous**: between any text in front and a suffix that is a name, plain keys have
equal texts only if they are equal, whatever their label values hold, so the snapshot of a collector merges no
two of its metrics. -/
theorem render_unambiguous {suffix : String} (hsuffix : isName suffix = true) (front : String) :
    (∀ k k' : Key, k.IsPlain → k'.IsPlain → k.render front suffix = k'.render front suffix → k = k') ∧
      ∀ c : Collector, c.IsPlain → ∀ now, Mirrors c (c.snapshot now) :=
  ⟨fun _ _ hk hk' => Key.render_inj hsuffix front hk hk', fun c hc _ =>
    ⟨unmerged_of_plain c.counters id hc.counters, unmerged_of_plain c.gauges id hc.gauges,
      unmerged_of_plain c.histograms Histogram.summary hc.histograms⟩⟩

/-- Two labels, of which the first has a value that ends in a backslash. -/
def twoLabels : Key := ⟨"n", [("a", "x\\"), ("b", "y")]⟩

/-- One label, whose value spells what stands between the outer quotes of `twoLabels`. -/
def oneLabel : Key := ⟨"n", [("a", "x\\\",b=\"y")]⟩

/-- A collector that counts under both keys. -/
def lookAlike : Collector :=
  { Collector.ofConfig .standard with counters := ⟨[(twoLabels, 1), (oneLabel, 2)], by decide⟩ }

theorem lookAlike_unmerged :
    isName "_count" = true ∧ twoLabels.IsPlain ∧ oneLabel.IsPlain ∧ lookAlike.IsPlain ∧
      twoLabels.render "gw" "_count" ≠ oneLabel.render "gw" "_count" ∧
      ((lookAlike.snapshot 0).counters.map Prod.fst).Nodup := by
  have hsuffix : isName "_count" = true := by decide
  have htwo : twoLabels.IsPlain := ⟨by decide, by unfold ProperLabels; decide⟩
  have hone : oneLabel.IsPlain := ⟨by decide, by unfold ProperLabels; decide⟩
  have hplain : lookAlike.IsPlain :=
    ⟨List.forall_mem_cons.2 ⟨htwo, List.forall_mem_singleton.2 hone⟩, List.forall_mem_nil _,
      List.forall_mem_nil _⟩
  obtain ⟨hkeys, hsnapshot⟩ := render_unambiguous hsuffix "gw"
  exact ⟨hsuffix, htwo, hone, hplain, fun h => absurd (hkeys _ _ htwo hone h) (by decide),
    (hsnapshot lookAlike hplain 0).counters.nodup⟩

end Ingress.Metrics

import Ingress.Text.Order

/-!
# Keys of metrics

* `Metrics.Labels` : pairs of a label and its value;
* `Metrics.Key` : a name with its labels, sorted;
* `Key.render` : the text of a key between a prefix and a suffix, quotes in label values escaped;
* `Key.le` : the order of exported metrics.
-/

namespace Ingress.Metrics

abbrev Labels := List (String × String)

structure Key where
  name : String
  labels : Labels
deriving DecidableEq, Repr

namespace Key

/-- A key of labels in any order. -/
def of (name : String) (labels : Labels) : Key := ⟨name, labels.mergeSort Text.pairLe⟩

def escape (c : Char) : List Char := if c = '"' then ['\\', '"'] else [c]

def labelText (label : String × String) : String :=
  label.1 ++ "=\"" ++ String.ofList (label.2.toList.flatMap escape) ++ "\""

def labelsText (labels : Labels) : String :=
  if labels.isEmpty then "" else "\x7b" ++ ",".intercalate (labels.map labelText) ++ "\x7d"

/-- The key behind a prefix, with a suffix on the name. -/
def render (k : Key) (front suffix : String) : String :=
  (if front.isEmpty then "" else front ++ "_") ++ k.name ++ suffix ++ labelsText k.labels

def text (k : Key) : String := k.render "" ""

/-- Keys by name, then by labels. -/
def le (a b : Key) : Bool :=
  if a.name = b.name then Text.listLe a.labels b.labels else decide (a.name < b.name)

end Key

end Ingress.Metrics

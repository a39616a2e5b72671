import BurnerTelemetry.Attribute.Report

/-!
The three attributes one by one: which of them a set names, the cluster that each is reported
under, and its value.
-/
namespace BurnerTelemetry.Attribute

/-- One of the three published attributes. -/
inductive Field where
  | flame | fan | temperature
  deriving DecidableEq, Repr

namespace Field

/-- All attributes, in the order in which they are reported. -/
def all : List Field := [flame, fan, temperature]

/-- The attribute is in the set. -/
def isIn (changes : Changes) : Field → Bool
  | flame => changes.flame
  | fan => changes.fan
  | temperature => changes.temperature

def cluster : Field → UInt32
  | flame => onOffCluster
  | fan => levelCluster
  | temperature => temperatureCluster

/-- The value that is reported. -/
def value (s : Snapshot) : Field → Value
  | flame => .onOff s.flame
  | fan => .level s.fan
  | temperature => .centidegrees (Int32.ofNat s.centidegrees)

/-- The value of an attribute of which nothing has been reported. -/
def unreported : Field → Value
  | flame => .onOff false
  | fan => .level 0
  | temperature => .centidegrees 0

/-- A cluster picks one attribute out of any set. -/
theorem filter_cluster (p : Field → Bool) (f : Field) :
    (all.filter p).filter (fun g => g.cluster == f.cluster) = if p f then [f] else [] := by
  have hone : all.filter (fun g => g.cluster == f.cluster) = [f] := by
    cases f <;> decide
  calc (all.filter p).filter (fun g => g.cluster == f.cluster)
      = (all.filter (fun g => g.cluster == f.cluster)).filter p := by
        rw [List.filter_filter, List.filter_filter]
        simp only [Bool.and_comm]
    _ = [f].filter p := by rw [hone]
    _ = if p f then [f] else [] := by rw [List.filter_cons, List.filter_nil]

@[simp] theorem isIn_none (f : Field) : f.isIn Changes.none = false := by
  cases f <;> rfl

@[simp] theorem isIn_union (c d : Changes) (f : Field) :
    f.isIn (c.union d) = (f.isIn c || f.isIn d) := by
  cases f <;> rfl

/-- A set that names no attribute is empty. -/
theorem eq_none_of_not_isIn {changes : Changes} (h : ∀ f ∈ all, f.isIn changes = false) :
    changes = Changes.none := by
  obtain ⟨flame, fan, temperature⟩ := changes
  obtain rfl : flame = false := h .flame (by decide)
  obtain rfl : fan = false := h .fan (by decide)
  obtain rfl : temperature = false := h .temperature (by decide)
  rfl

/-- An attribute that is not among the changes has kept its value. -/
theorem value_of_not_isIn {s previous : Snapshot} {f : Field}
    (h : f.isIn (s.changesSince previous) = false) : f.value s = f.value previous := by
  cases f with
  | flame =>
    have hflame : s.flame = previous.flame := bne_eq_false_iff_eq.1 h
    rw [value, value, hflame]
  | fan =>
    have hfan : s.fan = previous.fan := bne_eq_false_iff_eq.1 h
    rw [value, value, hfan]
  | temperature =>
    have htemp : s.temperature = previous.temperature := bne_eq_false_iff_eq.1 h
    rw [value, value, Snapshot.centidegrees, Snapshot.centidegrees, htemp]

/-- The entry of an attribute in a report. -/
def entry (s : Snapshot) (f : Field) : Entry :=
  ⟨s.version, endpoint, f.cluster, reportedId, f.value s⟩

end Field

end BurnerTelemetry.Attribute

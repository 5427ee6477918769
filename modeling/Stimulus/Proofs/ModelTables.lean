import Stimulus.Primitive.Model
import Stimulus.Proofs.IndexedTables
import Stimulus.Proofs.Keys
import Stimulus.Proofs.ModelNames
import Stimulus.Proofs.Spellings

/-!
# Models as tables of definitions

## Definitions

Of the definitions of one kind under the spellings of one name, the last one counts, and it
stands where the first one stood.

## Look-ups

A look-up leads to the definition that counts, whatever the spelling, and the canonical name
of an entry leads back to it.  A model that patches its entries in place through an index
answers in the same way.
-/

namespace Stimulus

/-!
# Definitions that count
-/

def lastNamed? (definitions : List ModelEntry) (kind : PrimitiveKind) (name : String) :
    Option ModelEntry :=
  (definitions.filter fun d => d.kind = kind ∧ SpelledAlike d.name name).getLast?

def ModelEntry.placed (entry : ModelEntry) : (PrimitiveKind × Key) × ModelEntry :=
  (entry.place, entry)

theorem lastUnder?_placed (definitions : List ModelEntry) (kind : PrimitiveKind)
    (name : String) :
    OrderedMap.lastUnder? (kind, Key.ofName name) (definitions.map ModelEntry.placed) =
      lastNamed? definitions kind name := by
  unfold OrderedMap.lastUnder? lastNamed?
  rw [List.filter_map, List.getLast?_map, Option.map_map]
  have hplace (d : ModelEntry) :
      d.place = (kind, Key.ofName name) ↔ d.kind = kind ∧ SpelledAlike d.name name :=
    Prod.mk.injEq _ _ _ _ ▸ Iff.rfl
  simp only [Function.comp_def, ModelEntry.placed, hplace, Option.map_id']

namespace Model

variable {name : String} {definitions : List ModelEntry}

theorem table_ofEntries (name : String) (definitions : List ModelEntry) :
    (ofEntries name definitions).table = .ofList (definitions.map ModelEntry.placed) := by
  induction definitions using List.reverseRecOn with
  | nil =>
      rfl
  | append_singleton definitions entry ih =>
      rw [List.map_append, List.map_singleton, OrderedMap.ofList_concat, ← ih]
      simp [ofEntries, define, ModelEntry.placed, ModelEntry.place]

theorem find?_ofEntries (name : String) (definitions : List ModelEntry) (kind : PrimitiveKind)
    (query : String) :
    (ofEntries name definitions).find? kind query = lastNamed? definitions kind query := by
  rw [find?, atKey?, table_ofEntries, OrderedMap.get?_ofList, lastUnder?_placed]

theorem place_of_atKey? {place : PrimitiveKind × Key} {entry : ModelEntry}
    (h : (ofEntries name definitions).table.get? place = some entry) : entry.place = place :=
  Prod.ext_iff.mpr (keyed_ofEntries name definitions place.1 place.2 entry h)

theorem places_entries (name : String) (definitions : List ModelEntry) :
    (ofEntries name definitions).entries.map ModelEntry.place =
      (definitions.map ModelEntry.place).eraseDups := by
  have hkeys : (ofEntries name definitions).entries.map ModelEntry.place =
      (ofEntries name definitions).table.keys :=
    OrderedMap.map_values fun _ _ => place_of_atKey?
  rw [hkeys, table_ofEntries, OrderedMap.keys_ofList, List.map_map]
  congr 1
  exact lawful_beq_subsingleton _ _

theorem find?_of_mem {entry : ModelEntry} (h : entry ∈ (ofEntries name definitions).entries) :
    (ofEntries name definitions).find? entry.kind entry.name = some entry := by
  rcases OrderedMap.exists_get?_of_mem h with ⟨place, hplace⟩
  rw [← place_of_atKey? hplace] at hplace
  exact hplace

/-!
# Look-ups with a number of arguments
-/

theorem resolve_eq_unknown {m : Model} {kind : PrimitiveKind} {query : String} {count : Nat} :
    m.resolve kind query count = .error (.structural (.notInModel query)) ↔
      m.find? kind query = none := by
  unfold resolve
  cases m.find? kind query with
  | none => simp
  | some entry =>
      dsimp only
      split <;> simp

theorem resolve_eq_arity {m : Model} {kind : PrimitiveKind} {query : String} {count : Nat}
    {fault : ArgumentFault} :
    m.resolve kind query count = .error (.argument fault) ↔
      ∃ entry, m.find? kind query = some entry ∧ entry.arity ≠ count ∧
        fault = .arity entry.name entry.arity count := by
  unfold resolve
  cases m.find? kind query with
  | none => simp
  | some entry =>
      dsimp only
      by_cases harity : entry.arity = count
      · simp [harity]
      · constructor
        · intro h
          rw [if_neg harity] at h
          cases h
          exact ⟨entry, rfl, harity, rfl⟩
        · intro h
          rcases h with ⟨found, hfound, _, rfl⟩
          cases hfound
          exact if_neg harity

/-!
# Indexed models
-/

theorem table_indexed (name : String) (definitions : List ModelEntry) :
    (IndexedModel.ofEntries name definitions).table =
      .ofList (definitions.map ModelEntry.placed) := by
  induction definitions using List.reverseRecOn with
  | nil =>
      rfl
  | append_singleton definitions entry ih =>
      have hlast : (IndexedModel.ofEntries name (definitions ++ [entry])).table =
          (IndexedModel.ofEntries name definitions).table.insert entry.place entry := by
        simp [IndexedModel.ofEntries, IndexedModel.define]
      rw [hlast, ih]
      simp [IndexedTable.ofList, ModelEntry.placed]

theorem holds_indexed (name : String) (definitions : List ModelEntry) :
    (IndexedModel.ofEntries name definitions).table.Holds
      (ofEntries name definitions).table.entries := by
  rw [table_indexed, table_ofEntries]
  exact IndexedTable.holds_ofList _

/-- The indexed model lists the entries of the model and finds the same, and its index never
leads out of its row. -/
structure Mirrors (m : Model) (indexed : IndexedModel) : Prop where
  row : indexed.table.row = m.entries
  finds : ∀ kind query, indexed.find? kind query = m.find? kind query
  inside : ∀ place position, indexed.table.index.get? place = some position →
    position < indexed.table.row.length

/-- The last definition of a kind under the spellings of a name counts. -/
structure LastWins (definitions : List ModelEntry) (m : Model) : Prop where
  finds : ∀ kind query, m.find? kind query = lastNamed? definitions kind query
  normal : ∀ kind query, m.find? kind (Key.ofName query).text = m.find? kind query
  places : m.entries.map ModelEntry.place = (definitions.map ModelEntry.place).eraseDups
  once : (m.entries.map ModelEntry.place).Nodup
  last : ∀ entry ∈ m.entries, lastNamed? definitions entry.kind entry.name = some entry
  listed : ∀ entry ∈ m.entries, m.find? entry.kind entry.name = some entry
  accepts : ∀ kind query count entry, m.resolve kind query count = .ok entry ↔
    lastNamed? definitions kind query = some entry ∧ entry.arity = count
  unknown : ∀ kind query count,
    m.resolve kind query count = .error (.structural (.notInModel query)) ↔
      lastNamed? definitions kind query = none
  arity : ∀ kind query count fault, m.resolve kind query count = .error (.argument fault) ↔
    ∃ entry, lastNamed? definitions kind query = some entry ∧ entry.arity ≠ count ∧
      fault = .arity entry.name entry.arity count

/-- Whatever is defined, and in whatever spellings, the last definition counts, and patching
the entries in place through an index comes to the same. -/
theorem lastWins_ofEntries (name : String) (definitions : List ModelEntry) :
    (ofEntries name definitions).LastWins definitions ∧
      (ofEntries name definitions).Mirrors (.ofEntries name definitions) := by
  have hfinds := find?_ofEntries name definitions
  have hplaces := places_entries name definitions
  have hholds := holds_indexed name definitions
  constructor
  · exact {
      finds := hfinds
      normal := fun kind query => congrArg (atKey? _ kind) (Key.ofName_text query)
      places := hplaces
      once := hplaces ▸ nodup_eraseDups _
      last := fun entry hentry => (hfinds _ _).symm.trans (find?_of_mem hentry)
      listed := fun entry hentry => find?_of_mem hentry
      accepts := fun kind query count entry => hfinds kind query ▸ resolve_eq_ok
      unknown := fun kind query count => hfinds kind query ▸ resolve_eq_unknown
      arity := fun kind query count fault => hfinds kind query ▸ resolve_eq_arity }
  · exact {
      row := hholds.row
      finds := fun kind query => hholds.get? (kind, Key.ofName query)
      inside := fun place position => hholds.lt_length }

end Model
end Stimulus

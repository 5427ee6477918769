import Mathlib.Algebra.Order.Floor.Div
import Mathlib.GroupTheory.GroupAction.Ring
import Stimulus.Data.Layout

/-!
# Walking data sections

## Sizes

A record takes a number of addressable units, which its contents and the size of a
unit determine.

## Walks

A walk goes through the records of a section from its start.  Every record lies where
the walk stands and moves it on by its size, and an origin moves it forward.  So no
two records of a layout overlap, and a gap lies before an origin only.
-/

namespace Stimulus
namespace Data

/-!
# Records
-/

namespace Record

def units (unitBits : Nat) : Record → Nat
  | label _ _ => 0
  | origin _ => 0
  | padding _ units => units.toNat
  | values _ _ numbers listed => listed.length * numbers.bits / unitBits
  | space _ _ units _ => units.toNat
  | strings _ _ listed terminated =>
      (listed.map fun s => (8 * (s.utf8ByteSize + if terminated then 1 else 0)) ⌈/⌉ unitBits).sum

def after? (unitBits position : Nat) : Record → Option Nat
  | origin address => if position ≤ address.toNat then some address.toNat else none
  | r => if r.address.toNat = position then some (position + r.units unitBits) else none

/-- The contents of the record are such as can be placed: numbers fill whole units and
are of their type, and nothing that is placed for its length is empty. -/
def Sound (unitBits : Nat) : Record → Prop
  | padding _ units => 0 < units
  | values _ _ numbers listed =>
      listed ≠ [] ∧ unitBits ∣ numbers.bits ∧ ∀ value ∈ listed, numbers.check value = .ok ()
  | space _ _ units _ => 0 < units
  | _ => True

variable {unitBits position next : Nat} {r : Record}

theorem after?_origin {address : UInt64} :
    (origin address).after? unitBits position = some next ↔
      position ≤ address.toNat ∧ next = address.toNat := by
  simp [after?, eq_comm]

theorem after?_placed (hr : ∀ address, r ≠ origin address) :
    r.after? unitBits position = some next ↔
      r.address.toNat = position ∧ next = position + r.units unitBits := by
  cases r with
  | origin address => exact absurd rfl (hr address)
  | _ => simp [after?, eq_comm]

theorem after?_padding {cursor aligned : UInt64} (h : cursor ≤ aligned) :
    (padding cursor (aligned - cursor)).after? unitBits cursor.toNat = some aligned.toNat := by
  rw [after?_placed (by simp)]
  refine ⟨rfl, ?_⟩
  rw [units, UInt64.toNat_sub_of_le _ _ h]
  have hle := UInt64.le_iff_toNat_le.mp h
  omega

theorem sound_padding {cursor aligned : UInt64} (h : cursor < aligned) :
    (padding cursor (aligned - cursor)).Sound unitBits := by
  rw [Sound, UInt64.lt_iff_toNat_lt, UInt64.toNat_sub_of_le _ _ (UInt64.le_of_lt h)]
  have hlt := UInt64.lt_iff_toNat_lt.mp h
  simpa using hlt

theorem between_of_after? (h : r.after? unitBits position = some next) :
    position ≤ r.address.toNat ∧ r.address.toNat + r.units unitBits = next := by
  by_cases hr : ∃ address, r = origin address
  · rcases hr with ⟨address, rfl⟩
    rcases after?_origin.mp h with ⟨hle, hnext⟩
    rw [hnext]
    exact ⟨hle, rfl⟩
  · rw [not_exists] at hr
    rcases (after?_placed hr).mp h with ⟨haddress, hnext⟩
    rw [haddress]
    exact ⟨Nat.le_refl _, hnext.symm⟩

end Record

/-!
# Sections
-/

/-- Where a walk that starts at `position` ends after all records. -/
def walk? (unitBits position : Nat) (records : List Record) : Option Nat :=
  records.foldlM (Record.after? unitBits) position

section

variable {unitBits position stop : Nat} {r : Record} {rest records : List Record}

theorem walk?_nil : walk? unitBits position [] = some position :=
  rfl

theorem walk?_cons :
    walk? unitBits position (r :: rest) = some stop ↔
      ∃ next, r.after? unitBits position = some next ∧ walk? unitBits next rest = some stop := by
  unfold walk?
  rw [List.foldlM_cons]
  exact Option.bind_eq_some_iff

theorem walk?_concat :
    walk? unitBits position (records ++ [r]) = some stop ↔
      ∃ last, walk? unitBits position records = some last ∧
        r.after? unitBits last = some stop := by
  simp [walk?, Option.bind_eq_some_iff]

theorem places_of_walk? (h : walk? unitBits position records = some stop) :
    position ≤ stop ∧
      (∀ r ∈ records, position ≤ r.address.toNat ∧ r.address.toNat + r.units unitBits ≤ stop) ∧
      records.Pairwise fun r r' => r.address.toNat + r.units unitBits ≤ r'.address.toNat := by
  induction records generalizing position with
  | nil =>
      cases h
      exact ⟨Nat.le_refl _, by simp, List.Pairwise.nil⟩
  | cons r rest ih =>
      rcases walk?_cons.mp h with ⟨next, hafter, hrest⟩
      rcases Record.between_of_after? hafter with ⟨haddress, hnext⟩
      rcases ih hrest with ⟨hstop, hplaces, hpairs⟩
      have hforward : position ≤ next := by
        omega
      refine ⟨Nat.le_trans hforward hstop, ?_, List.pairwise_cons.mpr ⟨?_, hpairs⟩⟩
      · intro r' hr'
        rcases List.mem_cons.mp hr' with rfl | hr'
        · exact ⟨haddress, by omega⟩
        · exact ⟨Nat.le_trans hforward (hplaces r' hr').left, (hplaces r' hr').right⟩
      · intro r' hr'
        rw [hnext]
        exact (hplaces r' hr').left

end

def Contiguous (first : UInt64) : List Section → UInt64 → Prop
  | [], last => first = last
  | s :: rest, last => s.start = first ∧ Contiguous s.stop rest last

theorem contiguous_concat {first last : UInt64} {sections : List Section} {s : Section} :
    Contiguous first (sections ++ [s]) last ↔
      Contiguous first sections s.start ∧ s.stop = last := by
  induction sections generalizing first with
  | nil =>
      simp [Contiguous, eq_comm]
  | cons s' rest ih =>
      simp [Contiguous, ih, and_assoc]

/-- Sections that lie end to end and that walks fill, with sound contents. -/
structure Filled (unitBits : Nat) (sections : List Section) (last : UInt64) : Prop where
  contiguous : Contiguous 0 sections last
  walked : ∀ s ∈ sections, walk? unitBits s.start.toNat s.records = some s.stop.toNat
  sound : ∀ s ∈ sections, ∀ r ∈ s.records, r.Sound unitBits

theorem filled_nil (unitBits : Nat) : Filled unitBits [] 0 :=
  ⟨rfl, by simp, by simp⟩

theorem filled_concat {unitBits : Nat} {sections : List Section} {s : Section} {last : UInt64} :
    Filled unitBits (sections ++ [s]) last ↔
      Filled unitBits sections s.start ∧
        walk? unitBits s.start.toNat s.records = some s.stop.toNat ∧
          (∀ r ∈ s.records, r.Sound unitBits) ∧ s.stop = last := by
  constructor
  · intro h
    rcases contiguous_concat.mp h.contiguous with ⟨hcontiguous, hlast⟩
    have hs : s ∈ sections ++ [s] := List.mem_append_right _ (List.mem_singleton_self s)
    refine ⟨⟨hcontiguous, ?_, ?_⟩, h.walked s hs, h.sound s hs, hlast⟩
    · intro s' hs'
      exact h.walked s' (List.mem_append_left _ hs')
    · intro s' hs'
      exact h.sound s' (List.mem_append_left _ hs')
  · intro hparts
    rcases hparts with ⟨h, hwalked, hsound, hlast⟩
    refine ⟨contiguous_concat.mpr ⟨h.contiguous, hlast⟩, ?_, ?_⟩
    · intro s' hs'
      rcases List.mem_append.mp hs' with hold | hnew
      · exact h.walked s' hold
      · rw [List.mem_singleton.mp hnew]
        exact hwalked
    · intro s' hs'
      rcases List.mem_append.mp hs' with hold | hnew
      · exact h.sound s' hold
      · rw [List.mem_singleton.mp hnew]
        exact hsound

namespace Filled

variable {unitBits : Nat} {sections : List Section} {last : UInt64}

theorem opened (h : Filled unitBits sections last) :
    Filled unitBits (sections ++ [⟨last, last, []⟩]) last :=
  filled_concat.mpr ⟨h, walk?_nil, by simp, rfl⟩

theorem appended {start next : UInt64} {records : List Record} {r : Record}
    (h : Filled unitBits (sections ++ [⟨start, last, records⟩]) last)
    (hafter : r.after? unitBits last.toNat = some next.toNat) (hsound : r.Sound unitBits) :
    Filled unitBits (sections ++ [⟨start, next, records ++ [r]⟩]) next := by
  rcases filled_concat.mp h with ⟨hfilled, hwalked, hrecords, _⟩
  refine filled_concat.mpr ⟨hfilled, walk?_concat.mpr ⟨_, hwalked, hafter⟩, ?_, rfl⟩
  intro r' hr'
  rcases List.mem_append.mp hr' with hold | hnew
  · exact hrecords r' hold
  · rw [List.mem_singleton.mp hnew]
    exact hsound

end Filled

theorem walk?_sections {unitBits : Nat} {first last : UInt64} {sections : List Section}
    (hcontiguous : Contiguous first sections last)
    (hwalked : ∀ s ∈ sections, walk? unitBits s.start.toNat s.records = some s.stop.toNat) :
    walk? unitBits first.toNat (sections.flatMap Section.records) = some last.toNat := by
  induction sections generalizing first with
  | nil =>
      cases hcontiguous
      rfl
  | cons s rest ih =>
      rcases hcontiguous with ⟨rfl, hrest⟩
      have hlater := ih hrest fun s' hs' => hwalked s' (List.mem_cons_of_mem _ hs')
      have hfirst := hwalked s List.mem_cons_self
      unfold walk? at hlater hfirst ⊢
      rw [List.flatMap_cons, List.foldlM_append, hfirst]
      exact hlater

/-- No two records of filled sections overlap. -/
theorem Filled.separate {unitBits : Nat} {sections : List Section} {last : UInt64}
    (h : Filled unitBits sections last) :
    (sections.flatMap Section.records).Pairwise fun r r' =>
      r.address.toNat + r.units unitBits ≤ r'.address.toNat :=
  (places_of_walk? (walk?_sections h.contiguous h.walked)).right.right

end Data
end Stimulus

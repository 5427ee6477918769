import Mathlib.Order.Bounds.Defs
import Stimulus.Proofs.FilledSections

/-!
# Moves of the cursor

## What a call asks for

A call that moves the cursor and passes its checks asks for an address, which is counted
without a bound: the one that is given, the next multiple of an alignment, or the end of
the record that it places.

## Address space

If the address lies in the address space, the call is accepted and the cursor is there.
Otherwise the call is refused because of a number that does not fit an address, and the
cursor never wraps.
-/

namespace Stimulus
namespace Data

open Checked

/-!
# Multiples
-/

theorem isLeast_multiple (cursor : Nat) {alignment : Nat} (h : 0 < alignment) :
    IsLeast {n | cursor ≤ n ∧ alignment ∣ n}
      ((cursor + alignment - 1) / alignment * alignment) := by
  constructor
  · exact ⟨Writer.le_aligned (Nat.ne_of_gt h), Nat.dvd_mul_left _ _⟩
  · intro n hn
    rcases hn with ⟨hcursor, k, rfl⟩
    rw [Nat.mul_comm alignment k]
    apply Nat.mul_le_mul_right
    apply Nat.le_of_lt_succ
    rw [Nat.div_lt_iff_lt_mul h, Nat.succ_mul, Nat.mul_comm k alignment]
    omega

theorem multiple_lt (cursor : Nat) {alignment : Nat} (h : 0 < alignment) :
    (cursor + alignment - 1) / alignment * alignment < cursor + alignment := by
  have hle := Nat.div_mul_le_self (cursor + alignment - 1) alignment
  omega

namespace Writer

/-!
# Calls that pass their checks
-/

structure Move where
  target : Nat
  answer : Option UInt64 := none
  records : List Record

def Move.over (w : Writer) (unitBits : Nat) (r : Record) : Move where
  target := w.cursor.toNat + r.units unitBits
  answer := some w.cursor
  records := [r]

/-- Whether the call moves the cursor and passes its checks: it goes forward, an alignment
is positive, an alias is of the right kind, numbers are of their type, and what is placed
is not empty. -/
def Passes (w : Writer) : Operation → Prop
  | .moveTo address => w.cursor ≤ address
  | .align alignment => alignment ≠ 0
  | .placeNumbers name values =>
      ∃ text numbers, w.layout.declaration? name = some (.type text numbers) ∧
        values ≠ [] ∧ ∀ value ∈ values, numbers.check value = .ok ()
  | .placeSpace name units =>
      ∃ text fill, w.layout.declaration? name = some (.space text fill) ∧ units ≠ 0
  | .placeStrings name strings =>
      ∃ text terminated, w.layout.declaration? name = some (.string text terminated) ∧
        strings ≠ []
  | _ => False

/-- The move that a call asks for. -/
inductive Asks (w : Writer) (unitBits : Nat) : Operation → Move → Prop where
  | moveTo (address : UInt64) :
      Asks w unitBits (.moveTo address)
        { target := address.toNat, records := [.origin address] }
  | align {alignment skipped : UInt64}
      (hleast : IsLeast {n | w.cursor.toNat ≤ n ∧ alignment.toNat ∣ n}
        (w.cursor.toNat + skipped.toNat)) :
      Asks w unitBits (.align alignment)
        { target := w.cursor.toNat + skipped.toNat
          records := if 0 < skipped then [.padding w.cursor skipped] else [] }
  | numbers {name text : String} {numbers : NumberType} (values : List Value)
      (hdeclared : w.layout.declaration? name = some (.type text numbers)) :
      Asks w unitBits (.placeNumbers name values)
        (.over w unitBits (.values text w.cursor numbers values))
  | space {name text : String} {fill : UInt64} (units : UInt64)
      (hdeclared : w.layout.declaration? name = some (.space text fill)) :
      Asks w unitBits (.placeSpace name units)
        (.over w unitBits (.space text w.cursor units fill))
  | strings {name text : String} {terminated : Bool} (strings : List String)
      (hdeclared : w.layout.declaration? name = some (.string text terminated)) :
      Asks w unitBits (.placeStrings name strings)
        (.over w unitBits (.strings text w.cursor strings terminated))

def extend (w : Writer) (opened : OpenSection) (records : List Record) (cursor : UInt64) :
    Writer :=
  { w with opened := some { opened with records := opened.records ++ records }, cursor }

/-- The call does what it asks for if the address space reaches that far, and is refused
because of an address beyond it if not. -/
structure Performs (w : Writer) (opened : OpenSection) (operation : Operation) (move : Move) :
    Prop where
  accepted : move.target < 2 ^ 64 → ∃ cursor : UInt64, cursor.toNat = move.target ∧
    w.perform operation = .ok (move.answer, w.extend opened move.records cursor)
  refused : 2 ^ 64 ≤ move.target → ∃ n : Nat, 2 ^ 64 ≤ n ∧
    w.perform operation = .error (.argument (.doesNotFit n 64 false))

variable {w : Writer} {opened : OpenSection} {config : Config}

/-!
# Addresses
-/

theorem inAddressSpace_of_lt {target : Nat} (asked : Nat) (h : target < 2 ^ 64) :
    ∃ cursor : UInt64, cursor.toNat = target ∧ w.inAddressSpace target asked = .ok cursor := by
  have hcursor : (UInt64.ofNatLT target h).toNat = target := UInt64.toNat_ofNatLT
  exact ⟨_, hcursor, inAddressSpace_eq_ok.mpr hcursor⟩

theorem inAddressSpace_of_le {target : Nat} (asked : Nat) (h : 2 ^ 64 ≤ target) :
    w.inAddressSpace target asked =
      .error (.argument (.doesNotFit (w.cursor.toNat + asked : Nat) 64 false)) :=
  dif_neg (Nat.not_lt.mpr h)

theorem place_of_lt (hopened : w.opened = some opened) {units : Nat} (r : UInt64 → Record)
    (h : w.cursor.toNat + units < 2 ^ 64) :
    ∃ cursor : UInt64, cursor.toNat = w.cursor.toNat + units ∧
      w.place units r = .ok (w.cursor, w.extend opened [r w.cursor] cursor) := by
  rcases inAddressSpace_of_lt units h with ⟨cursor, hcursor, hnext⟩
  have hsection := currentSection_eq_ok.mpr hopened
  exact ⟨cursor, hcursor, bind_eq_ok.mpr ⟨opened, hsection, bind_eq_ok.mpr ⟨cursor, hnext, rfl⟩⟩⟩

theorem place_of_le (hopened : w.opened = some opened) {units : Nat} (r : UInt64 → Record)
    (h : 2 ^ 64 ≤ w.cursor.toNat + units) :
    w.place units r =
      .error (.argument (.doesNotFit (w.cursor.toNat + units : Nat) 64 false)) := by
  rw [place, currentSection_eq_ok.mpr hopened]
  change (w.inAddressSpace (w.cursor.toNat + units) units >>= _) = _
  rw [inAddressSpace_of_le units h]
  rfl

theorem performs_place (hopened : w.opened = some opened) {operation : Operation}
    {units unitBits : Nat} (r : UInt64 → Record) (hunits : (r w.cursor).units unitBits = units)
    (hcall : w.perform operation =
      (w.place units r).map fun (address, next) => (some address, next)) :
    w.Performs opened operation (.over w unitBits (r w.cursor)) := by
  unfold Move.over
  rw [hunits]
  constructor
  · intro h
    rcases place_of_lt hopened r h with ⟨cursor, hcursor, hplaced⟩
    refine ⟨cursor, hcursor, ?_⟩
    rw [hcall, hplaced]
    rfl
  · intro h
    refine ⟨_, h, ?_⟩
    rw [hcall, place_of_le hopened r h]
    rfl

/-!
# Calls
-/

theorem toNat_pos {n : UInt64} (h : n ≠ 0) : 0 < n.toNat :=
  UInt64.lt_iff_toNat_lt.mp (UInt64.pos_iff_ne_zero.mpr h)

theorem performs_moveTo (hopened : w.opened = some opened) {address : UInt64}
    (hforward : w.cursor ≤ address) :
    w.Performs opened (.moveTo address)
      { target := address.toNat, records := [.origin address] } := by
  constructor
  · intro _
    refine ⟨address, rfl, ?_⟩
    rw [perform, moveTo, currentSection_eq_ok.mpr hopened]
    change (if address < w.cursor then _ else _ : Except Refusal Writer).map _ = _
    rw [if_neg (UInt64.not_lt.mpr hforward)]
    rfl
  · intro h
    exact absurd address.toNat_lt (Nat.not_lt.mpr h)

theorem extend_nil (hopened : w.opened = some opened) (cursor : UInt64) :
    w.extend opened [] cursor = { w with cursor } := by
  rw [extend, List.append_nil, ← hopened]

theorem align_eq (hopened : w.opened = some opened) {alignment : UInt64}
    (hpositive : alignment ≠ 0) :
    w.align alignment =
      (w.inAddressSpace
        ((w.cursor.toNat + alignment.toNat - 1) / alignment.toNat * alignment.toNat)
        alignment.toNat).map fun aligned =>
          if w.cursor < aligned then
            w.append opened (.padding w.cursor (aligned - w.cursor)) aligned
          else { w with cursor := aligned } := by
  rw [align, if_neg hpositive, currentSection_eq_ok.mpr hopened]
  change (w.inAddressSpace _ _ >>= fun aligned => if w.cursor < aligned then pure _ else pure _) = _
  cases w.inAddressSpace _ _ with
  | error cause => rfl
  | ok aligned =>
      exact (apply_ite Except.ok (w.cursor < aligned) _ _).symm

theorem padded_eq (hopened : w.opened = some opened) {cursor skipped : UInt64}
    (hcursor : cursor.toNat = w.cursor.toNat + skipped.toNat) :
    (if w.cursor < cursor then w.append opened (.padding w.cursor (cursor - w.cursor)) cursor
      else { w with cursor }) =
      w.extend opened (if 0 < skipped then [.padding w.cursor skipped] else []) cursor := by
  have hiff : w.cursor < cursor ↔ 0 < skipped := by
    rw [UInt64.lt_iff_toNat_lt, UInt64.lt_iff_toNat_lt, hcursor, UInt64.toNat_zero]
    omega
  by_cases hskipped : 0 < skipped
  · have hbehind := hiff.mpr hskipped
    have hdifference : cursor - w.cursor = skipped := by
      rw [← UInt64.toNat_inj, UInt64.toNat_sub_of_le _ _ (UInt64.le_of_lt hbehind), hcursor]
      omega
    rw [if_pos hbehind, if_pos hskipped, hdifference]
    rfl
  · rw [if_neg (hiff.not.mpr hskipped), if_neg hskipped, extend_nil hopened]

theorem performs_align (hopened : w.opened = some opened) {alignment skipped : UInt64}
    (hpositive : alignment ≠ 0)
    (hleast : IsLeast {n | w.cursor.toNat ≤ n ∧ alignment.toNat ∣ n}
      (w.cursor.toNat + skipped.toNat)) :
    w.Performs opened (.align alignment)
      { target := w.cursor.toNat + skipped.toNat
        records := if 0 < skipped then [.padding w.cursor skipped] else [] } := by
  have hnonzero := toNat_pos hpositive
  have htarget := (isLeast_multiple w.cursor.toNat hnonzero).unique hleast
  constructor
  · intro h
    rcases inAddressSpace_of_lt (w := w) alignment.toNat h with ⟨cursor, hcursor, hnext⟩
    refine ⟨cursor, hcursor, ?_⟩
    rw [perform, align_eq hopened hpositive, htarget, hnext, ← padded_eq hopened hcursor]
    rfl
  · intro h
    dsimp only at h
    have hbeyond := multiple_lt w.cursor.toNat hnonzero
    refine ⟨w.cursor.toNat + alignment.toNat, by omega, ?_⟩
    rw [perform, align_eq hopened hpositive, htarget, inAddressSpace_of_le _ h]
    rfl

theorem placeNumbers_eq (hopened : w.opened = some opened)
    (hconfig : w.layout.config = some config) {name text : String} {numbers : NumberType}
    {values : List Value} (hdeclared : w.layout.declaration? name = some (.type text numbers))
    (hsome : values ≠ []) (hchecked : ∀ value ∈ values, numbers.check value = .ok ()) :
    w.placeNumbers name values =
      w.place (numbers.bits / config.unitBits * values.length) fun address =>
        .values text address numbers values := by
  have hall : numbers.checkAll values = .ok () := NumberType.checkAll_eq_ok.mpr hchecked
  rw [placeNumbers, currentSection_eq_ok.mpr hopened, lookup_eq_ok.mpr hdeclared]
  change (if values.isEmpty = true then _ else _) = _
  rw [if_neg (by simpa using hsome), hall, config_eq_ok.mpr hconfig]
  rfl

theorem placeSpace_eq (hopened : w.opened = some opened) {name text : String}
    {fill units : UInt64} (hdeclared : w.layout.declaration? name = some (.space text fill))
    (hpositive : units ≠ 0) :
    w.placeSpace name units =
      w.place units.toNat fun address => .space text address units fill := by
  rw [placeSpace, currentSection_eq_ok.mpr hopened, lookup_eq_ok.mpr hdeclared]
  change (if units = 0 then _ else _) = _
  rw [if_neg hpositive]

theorem placeStrings_eq (hopened : w.opened = some opened)
    (hconfig : w.layout.config = some config) {name text : String} {terminated : Bool}
    {strings : List String}
    (hdeclared : w.layout.declaration? name = some (.string text terminated))
    (hsome : strings ≠ []) :
    w.placeStrings name strings =
      w.place (stringsUnits config.unitBits terminated strings) fun address =>
        .strings text address strings terminated := by
  rw [placeStrings, currentSection_eq_ok.mpr hopened, lookup_eq_ok.mpr hdeclared]
  change (if strings.isEmpty = true then _ else _) = _
  rw [if_neg (by simpa using hsome), config_eq_ok.mpr hconfig]
  rfl

theorem performs_numbers (hw : w.Configured) (hopened : w.opened = some opened)
    (hconfig : w.layout.config = some config) {name text : String} {numbers : NumberType}
    {values : List Value} (hdeclared : w.layout.declaration? name = some (.type text numbers))
    (hsome : values ≠ []) (hchecked : ∀ value ∈ values, numbers.check value = .ok ()) :
    w.Performs opened (.placeNumbers name values)
      (.over w config.unitBits (.values text w.cursor numbers values)) := by
  have hwhole := hw.aligned config hconfig _ _ _ hdeclared
  have hunits : (Record.values text w.cursor numbers values).units config.unitBits =
      numbers.bits / config.unitBits * values.length := by
    rw [Record.units, Nat.mul_div_assoc _ hwhole, Nat.mul_comm]
  apply performs_place hopened (fun address => .values text address numbers values) hunits
  rw [perform, placeNumbers_eq hopened hconfig hdeclared hsome hchecked]

theorem performs_space (hopened : w.opened = some opened) {name text : String}
    {fill units : UInt64} (hdeclared : w.layout.declaration? name = some (.space text fill))
    (hpositive : units ≠ 0) (unitBits : Nat) :
    w.Performs opened (.placeSpace name units)
      (.over w unitBits (.space text w.cursor units fill)) := by
  apply performs_place hopened (fun address => .space text address units fill) rfl
  rw [perform, placeSpace_eq hopened hdeclared hpositive]
  rfl

theorem performs_strings (hopened : w.opened = some opened)
    (hconfig : w.layout.config = some config) {name text : String} {terminated : Bool}
    {strings : List String}
    (hdeclared : w.layout.declaration? name = some (.string text terminated))
    (hsome : strings ≠ []) :
    w.Performs opened (.placeStrings name strings)
      (.over w config.unitBits (.strings text w.cursor strings terminated)) := by
  have hunits := (stringsUnits_eq config.unitBits terminated strings).symm
  apply performs_place hopened (fun address => .strings text address strings terminated) hunits
  rw [perform, placeStrings_eq hopened hconfig hdeclared hsome]

/-!
# Moves
-/

theorem exists_asks {operation : Operation} (unitBits : Nat) (hpasses : w.Passes operation) :
    ∃ move, w.Asks unitBits operation move := by
  cases operation with
  | moveTo address => exact ⟨_, .moveTo address⟩
  | align alignment =>
      have hnonzero := toNat_pos hpasses
      have hleast := isLeast_multiple w.cursor.toNat hnonzero
      have hshort := multiple_lt w.cursor.toNat hnonzero
      generalize (w.cursor.toNat + alignment.toNat - 1) / alignment.toNat * alignment.toNat =
        target at hleast hshort
      have hforward : w.cursor.toNat ≤ target := hleast.left.left
      have hbound : target - w.cursor.toNat < 2 ^ 64 := by
        have hword := alignment.toNat_lt
        omega
      have hskipped : w.cursor.toNat + (UInt64.ofNatLT _ hbound).toNat = target := by
        rw [UInt64.toNat_ofNatLT, Nat.add_sub_cancel' hforward]
      rw [← hskipped] at hleast
      exact ⟨_, .align hleast⟩
  | placeNumbers name values =>
      rcases hpasses with ⟨text, numbers, hdeclared, _⟩
      exact ⟨_, .numbers values hdeclared⟩
  | placeSpace name units =>
      rcases hpasses with ⟨text, fill, hdeclared, _⟩
      exact ⟨_, .space units hdeclared⟩
  | placeStrings name strings =>
      rcases hpasses with ⟨text, terminated, hdeclared, _⟩
      exact ⟨_, .strings strings hdeclared⟩
  | _ => exact hpasses.elim

theorem performs_of_asks (hw : w.Configured) (hopened : w.opened = some opened)
    (hconfig : w.layout.config = some config) {operation : Operation} {move : Move}
    (hpasses : w.Passes operation) (hasks : w.Asks config.unitBits operation move) :
    w.Performs opened operation move := by
  cases hasks with
  | moveTo address => exact performs_moveTo hopened hpasses
  | align hleast => exact performs_align hopened hpasses hleast
  | numbers values hdeclared =>
      rcases hpasses with ⟨_, _, hfound, hsome, hchecked⟩
      cases hdeclared.symm.trans hfound
      exact performs_numbers hw hopened hconfig hdeclared hsome hchecked
  | space units hdeclared =>
      rcases hpasses with ⟨_, _, _, hpositive⟩
      exact performs_space hopened hdeclared hpositive config.unitBits
  | strings strings hdeclared =>
      rcases hpasses with ⟨_, _, _, hsome⟩
      exact performs_strings hopened hconfig hdeclared hsome

theorem sound_of_asks (hw : w.Configured) (hconfig : w.layout.config = some config)
    {operation : Operation} {move : Move} (hpasses : w.Passes operation)
    (hasks : w.Asks config.unitBits operation move) :
    ∀ r ∈ move.records, r.Sound config.unitBits := by
  intro r hr
  cases hasks with
  | moveTo address =>
      rw [List.mem_singleton.mp hr]
      exact trivial
  | align hleast =>
      dsimp only at hr
      split at hr
      · rename_i hskipped
        rw [List.mem_singleton.mp hr]
        exact hskipped
      · cases hr
  | numbers values hdeclared =>
      rcases hpasses with ⟨_, _, hfound, hsome, hchecked⟩
      cases hdeclared.symm.trans hfound
      rw [List.mem_singleton.mp hr]
      exact ⟨hsome, hw.aligned config hconfig _ _ _ hdeclared, hchecked⟩
  | space units hdeclared =>
      rcases hpasses with ⟨_, _, _, hpositive⟩
      rw [List.mem_singleton.mp hr]
      exact UInt64.pos_iff_ne_zero.mpr hpositive
  | strings strings hdeclared =>
      rw [List.mem_singleton.mp hr]
      exact trivial

/-- What holds of a call that passes its checks: it asks for a move, performs it exactly,
and places sound records only. -/
structure MovesExactly (w : Writer) (config : Config) (opened : OpenSection)
    (operation : Operation) : Prop where
  asks : ∃ move, w.Asks config.unitBits operation move
  performs : ∀ move, w.Asks config.unitBits operation move → w.Performs opened operation move
  sound : ∀ move, w.Asks config.unitBits operation move →
    ∀ r ∈ move.records, r.Sound config.unitBits

end Writer

/-- Whatever calls were made, a call in an open section that passes its checks moves the
cursor exactly, or is refused because the address space ends before. -/
theorem movesExactly_of_passes {operations : List Operation} {operation : Operation}
    {opened : OpenSection} (hopened : (({} : Writer).run operations).opened = some opened)
    (hpasses : (({} : Writer).run operations).Passes operation) :
    ∃ config, (({} : Writer).run operations).layout.config = some config ∧
      (({} : Writer).run operations).MovesExactly config opened operation := by
  have hw := (Writer.run_fills .start .start operations).left
  rcases hw.of_opened hopened with ⟨config, hconfig⟩
  refine ⟨config, hconfig, Writer.exists_asks config.unitBits hpasses, ?_, ?_⟩
  · intro move hasks
    exact Writer.performs_of_asks hw hopened hconfig hpasses hasks
  · intro move hasks
    exact Writer.sound_of_asks hw hconfig hpasses hasks

def edgeOperations : List Operation :=
  [.configure ⟨".data", "M", 16⟩, .declareNumbers "word" ".word" (.card 32), .openSection,
    .moveTo 18446744073709551611]

theorem movesExactly_of_passes_sample :
    let w := ({} : Writer).run edgeOperations
    let words : List Value := [⟨1, by decide, by decide⟩, ⟨2, by decide, by decide⟩]
    let opened : OpenSection := ⟨0, [.origin 18446744073709551611]⟩
    w.opened = some opened ∧ w.Passes (.placeNumbers "word" words) ∧
      (w.perform (.placeNumbers "word" words)).toOption.map (fun (answer, next) =>
        (answer, next.cursor)) = some (some 18446744073709551611, 18446744073709551615) ∧
      (w.perform (.align 8)).toOption.isNone = true ∧
      ∃ config, w.layout.config = some config ∧
        w.MovesExactly config opened (.placeNumbers "word" words) := by
  intro w words opened
  have hopened : w.opened = some opened := by
    decide
  have hpasses : w.Passes (.placeNumbers "word" words) :=
    ⟨".word", .card 32, by decide, by decide, by decide⟩
  exact ⟨hopened, hpasses, by decide, by decide, movesExactly_of_passes hopened hpasses⟩

end Data
end Stimulus

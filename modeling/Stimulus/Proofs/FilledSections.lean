import Stimulus.Data.Writer
import Stimulus.Proofs.Checked
import Stimulus.Proofs.DataSections
import Stimulus.Proofs.Sealing

/-!
# Sections that a writer fills

## Accepted calls

An accepted call sets the configuration, declares an alias, opens or closes a section,
or appends a record on which a walk from the cursor ends at the next cursor.

## Layouts

The closed sections of a writer, with the open one up to the cursor, are filled from
address 0 to the cursor.  Closing a section changes nothing about them.
-/

namespace Stimulus
namespace Data

open Checked

/-!
# Checks
-/

theorem NumberType.checkAll_eq_ok {t : NumberType} {values : List Value} {u : Unit} :
    t.checkAll values = .ok u ↔ ∀ value ∈ values, t.check value = .ok () := by
  induction values with
  | nil =>
      simp [checkAll]
  | cons value rest ih =>
      rw [checkAll, bind_eq_ok, List.forall_mem_cons]
      constructor
      · intro h
        rcases h with ⟨_, hvalue, hrest⟩
        exact ⟨hvalue, ih.mp hrest⟩
      · intro h
        exact ⟨(), h.left, ih.mpr h.right⟩

namespace Writer

variable {w next : Writer} {config : Config} {unitBits : Nat}

theorem config_eq_ok : w.config = .ok config ↔ w.layout.config = some config := by
  unfold Writer.config
  cases w.layout.config <;> simp

theorem currentSection_eq_ok {opened : OpenSection} :
    w.currentSection = .ok opened ↔ w.opened = some opened := by
  unfold currentSection
  cases w.opened <;> simp

theorem lookup_eq_ok {name : String} {declaration : Declaration} :
    w.lookup name = .ok declaration ↔
      w.layout.declarations.get? (Key.ofName name) = some declaration := by
  unfold lookup Layout.declaration?
  cases w.layout.declarations.get? (Key.ofName name) <;> simp

theorem inAddressSpace_eq_ok {target asked : Nat} {address : UInt64} :
    w.inAddressSpace target asked = .ok address ↔ address.toNat = target := by
  unfold inAddressSpace
  split
  · rename_i hsize
    rw [Except.ok.injEq, ← UInt64.toNat_inj, UInt64.toNat_ofNatLT]
    exact eq_comm
  · rename_i hsize
    have hbound := address.toNat_lt_size
    constructor
    · intro h
      cases h
    · intro h
      rw [h] at hbound
      exact absurd hbound hsize

theorem stringsUnits_eq (unitBits : Nat) (terminated : Bool) (strings : List String) :
    stringsUnits unitBits terminated strings =
      (strings.map fun s =>
        (8 * (s.utf8ByteSize + if terminated then 1 else 0)) ⌈/⌉ unitBits).sum := by
  induction strings with
  | nil =>
      rfl
  | cons s rest ih =>
      rw [List.map_cons, List.sum_cons, ← ih, Nat.ceilDiv_eq_add_pred_div]
      rfl

theorem le_aligned {cursor alignment : Nat} (h : alignment ≠ 0) :
    cursor ≤ (cursor + alignment - 1) / alignment * alignment := by
  have hdivided := Nat.div_add_mod (cursor + alignment - 1) alignment
  have hremainder := Nat.mod_lt (cursor + alignment - 1) (Nat.pos_of_ne_zero h)
  rw [Nat.mul_comm] at hdivided
  omega

/-!
# Accepted calls
-/

inductive Change (w : Writer) : Writer → Prop where
  | kept : Change w w
  | configured {config : Config} (hmissing : w.layout.config = none)
      (hpositive : 0 < config.unitBits) :
      Change w { w with layout := { w.layout with config := some config } }
  | declared {config : Config} {key : Key} {declaration : Declaration}
      (hconfig : w.layout.config = some config)
      (haligned : ∀ text numbers, declaration = .type text numbers →
        config.unitBits ∣ numbers.bits) :
      Change w
        { w with layout :=
          { w.layout with declarations := w.layout.declarations.insert key declaration } }
  | opened {config : Config} (hconfig : w.layout.config = some config)
      (hopened : w.opened = none) :
      Change w { w with opened := some ⟨w.cursor, []⟩ }
  | closed {opened : OpenSection} (hopened : w.opened = some opened) :
      Change w
        { w with
          layout :=
            { w.layout with
              sections := w.layout.sections ++ [⟨opened.start, w.cursor, opened.records⟩] }
          opened := none }
  | appended {config : Config} {opened : OpenSection} {r : Record} {cursor : UInt64}
      (hconfig : w.layout.config = some config) (hopened : w.opened = some opened)
      (hafter : r.after? config.unitBits w.cursor.toNat = some cursor.toNat)
      (hsound : r.Sound config.unitBits) :
      Change w (w.append opened r cursor)

structure Configured (w : Writer) : Prop where
  missing : w.layout.config = none → w = {}
  positive : ∀ config, w.layout.config = some config → 0 < config.unitBits
  aligned : ∀ config, w.layout.config = some config → ∀ key text numbers,
    w.layout.declarations.get? key = some (.type text numbers) → config.unitBits ∣ numbers.bits

namespace Configured

theorem start : Configured {} where
  missing _ := rfl
  positive config h := by
    cases h
  aligned config h := by
    cases h

theorem of_opened (h : w.Configured) {opened : OpenSection} (hopened : w.opened = some opened) :
    ∃ config, w.layout.config = some config := by
  cases hconfig : w.layout.config with
  | none =>
      rw [h.missing hconfig] at hopened
      cases hopened
  | some config => exact ⟨config, rfl⟩

theorem change (h : w.Configured) (hchange : w.Change next) : next.Configured := by
  cases hchange with
  | kept => exact h
  | configured hmissing hpositive =>
      rw [h.missing hmissing]
      refine ⟨?_, ?_, ?_⟩
      · intro hnone
        cases hnone
      · intro other hother
        cases hother
        exact hpositive
      · intro other _ key text numbers hfound
        cases hfound
  | @declared config key declaration hconfig haligned =>
      refine ⟨?_, h.positive, ?_⟩
      · intro hnone
        cases hconfig.symm.trans hnone
      · intro other hother key' text numbers hfound
        cases hconfig.symm.trans hother
        rw [OrderedMap.get?_insert] at hfound
        split at hfound
        · exact haligned text numbers (Option.some.inj hfound)
        · exact h.aligned config hconfig key' text numbers hfound
  | opened hconfig _ =>
      refine ⟨?_, h.positive, h.aligned⟩
      intro hnone
      cases hconfig.symm.trans hnone
  | closed hopened =>
      rcases h.of_opened hopened with ⟨config, hconfig⟩
      refine ⟨?_, h.positive, h.aligned⟩
      intro hnone
      cases hconfig.symm.trans hnone
  | appended hconfig _ _ _ =>
      refine ⟨?_, h.positive, h.aligned⟩
      intro hnone
      cases hconfig.symm.trans hnone

end Configured

namespace Change

theorem configure (h : w.configure config = .ok next) : w.Change next := by
  unfold Writer.configure at h
  split at h
  · cases h
  · rename_i hmissing
    split at h
    · cases h
    · rename_i hpositive
      cases h
      exact .configured (by simpa using hmissing) (Nat.pos_of_ne_zero hpositive)

theorem declare {name : String} {declaration : Declaration}
    (hconfig : w.layout.config = some config)
    (haligned : ∀ text numbers, declaration = .type text numbers →
      config.unitBits ∣ numbers.bits)
    (h : w.declare name declaration = .ok next) : w.Change next := by
  unfold Writer.declare at h
  split at h
  · cases h
  · cases h
    exact .declared hconfig haligned

theorem declareNumbers {name text : String} {numbers : NumberType}
    (h : w.declareNumbers name text numbers = .ok next) : w.Change next := by
  rcases bind_eq_ok.mp h with ⟨config, hconfig, hrest⟩
  dsimp only at hrest
  split at hrest
  · cases hrest
  · split at hrest
    · cases hrest
    · rename_i hwhole
      refine declare (config_eq_ok.mp hconfig) ?_ hrest
      intro _ _ hsame
      cases hsame
      exact Nat.dvd_of_mod_eq_zero (by simpa using hwhole)

theorem declareSpace {name text : String} {fill : UInt64}
    (h : w.declareSpace name text fill = .ok next) : w.Change next := by
  rcases bind_eq_ok.mp h with ⟨config, hconfig, hrest⟩
  exact declare (config_eq_ok.mp hconfig) (by simp) hrest

theorem declareStrings {name text : String} {terminated : Bool}
    (h : w.declareStrings name text terminated = .ok next) : w.Change next := by
  rcases bind_eq_ok.mp h with ⟨config, hconfig, hrest⟩
  exact declare (config_eq_ok.mp hconfig) (by simp) hrest

theorem openSection (h : w.openSection = .ok next) : w.Change next := by
  rcases bind_eq_ok.mp h with ⟨config, hconfig, hrest⟩
  dsimp only at hrest
  split at hrest
  · cases hrest
  · rename_i hopened
    cases hrest
    exact .opened (config_eq_ok.mp hconfig) (by simpa [isOpen] using hopened)

theorem closeSection (h : w.closeSection = .ok next) : w.Change next := by
  unfold Writer.closeSection at h
  split at h
  · cases h
  · rename_i hopened
    cases h
    exact .closed hopened

theorem label (hw : w.Configured) {name : String} {address : UInt64}
    (h : w.label name = .ok (address, next)) : w.Change next := by
  rcases bind_eq_ok.mp h with ⟨opened, hsection, hrest⟩
  have hopened := currentSection_eq_ok.mp hsection
  rcases hw.of_opened hopened with ⟨config, hconfig⟩
  cases hrest
  exact .appended hconfig hopened (by simp [Record.after?, Record.address, Record.units]) trivial

theorem moveTo (hw : w.Configured) {address : UInt64} (h : w.moveTo address = .ok next) :
    w.Change next := by
  rcases bind_eq_ok.mp h with ⟨opened, hsection, hrest⟩
  have hopened := currentSection_eq_ok.mp hsection
  rcases hw.of_opened hopened with ⟨config, hconfig⟩
  dsimp only at hrest
  split at hrest
  · cases hrest
  · rename_i hforward
    cases hrest
    rw [UInt64.not_lt, UInt64.le_iff_toNat_le] at hforward
    exact .appended hconfig hopened (Record.after?_origin.mpr ⟨hforward, rfl⟩) trivial

theorem align (hw : w.Configured) {alignment : UInt64} (h : w.align alignment = .ok next) :
    w.Change next := by
  unfold Writer.align at h
  dsimp only at h
  split at h
  · cases h
  · rename_i halignment
    rcases bind_eq_ok.mp h with ⟨opened, hsection, hrest⟩
    have hopened := currentSection_eq_ok.mp hsection
    rcases hw.of_opened hopened with ⟨config, hconfig⟩
    rcases bind_eq_ok.mp hrest with ⟨aligned, htarget, hnext⟩
    have hforward : w.cursor ≤ aligned := by
      rw [UInt64.le_iff_toNat_le, inAddressSpace_eq_ok.mp htarget]
      exact le_aligned (by simpa [← UInt64.toNat_inj] using halignment)
    split at hnext
    · rename_i hbehind
      cases hnext
      exact .appended hconfig hopened (Record.after?_padding hforward)
        (Record.sound_padding hbehind)
    · rename_i hnot
      have hsame : aligned = w.cursor :=
        UInt64.le_antisymm (UInt64.not_lt.mp hnot) hforward
      cases hnext
      rw [hsame]
      exact .kept

theorem place {units : Nat} {r : UInt64 → Record} {address : UInt64}
    (hconfig : w.layout.config = some config)
    (hplaced : ∀ address other, r address ≠ .origin other)
    (haddress : (r w.cursor).address = w.cursor)
    (hunits : (r w.cursor).units config.unitBits = units)
    (hsound : (r w.cursor).Sound config.unitBits)
    (h : w.place units r = .ok (address, next)) : w.Change next := by
  rcases bind_eq_ok.mp h with ⟨opened, hsection, hrest⟩
  rcases bind_eq_ok.mp hrest with ⟨cursor, htarget, hnext⟩
  cases hnext
  refine .appended hconfig (currentSection_eq_ok.mp hsection) ?_ hsound
  rw [Record.after?_placed (hplaced _), haddress, hunits]
  exact ⟨rfl, inAddressSpace_eq_ok.mp htarget⟩

theorem placeNumbers (hw : w.Configured) {name : String} {values : List Value}
    {address : UInt64} (h : w.placeNumbers name values = .ok (address, next)) :
    w.Change next := by
  rcases bind_eq_ok.mp h with ⟨_, _, hdeclared⟩
  rcases bind_eq_ok.mp hdeclared with ⟨declaration, hfound, hrest⟩
  split at hrest
  · rename_i text numbers
    dsimp only at hrest
    split at hrest
    · cases hrest
    · rename_i hnonempty
      rcases bind_eq_ok.mp hrest with ⟨_, hchecked, hrest⟩
      rcases bind_eq_ok.mp hrest with ⟨config, hconfig, hplace⟩
      have hwhole := hw.aligned config (config_eq_ok.mp hconfig) _ _ _ (lookup_eq_ok.mp hfound)
      refine place (config_eq_ok.mp hconfig) ?_ ?_ ?_ ?_ hplace
      · simp
      · rfl
      · rw [Record.units, Nat.mul_div_assoc _ hwhole, Nat.mul_comm]
      · exact ⟨by simpa using hnonempty, hwhole,
          NumberType.checkAll_eq_ok.mp (mapError_eq_ok.mp hchecked)⟩
  · cases hrest

theorem placeSpace (hw : w.Configured) {name : String} {units address : UInt64}
    (h : w.placeSpace name units = .ok (address, next)) : w.Change next := by
  rcases bind_eq_ok.mp h with ⟨opened, hsection, hdeclared⟩
  rcases bind_eq_ok.mp hdeclared with ⟨declaration, hfound, hrest⟩
  rcases hw.of_opened (currentSection_eq_ok.mp hsection) with ⟨config, hconfig⟩
  split at hrest
  · dsimp only at hrest
    split at hrest
    · cases hrest
    · rename_i hnonzero
      refine place hconfig ?_ ?_ ?_ ?_ hrest
      · simp
      · rfl
      · rfl
      · exact UInt64.pos_iff_ne_zero.mpr hnonzero
  · cases hrest

theorem placeStrings {name : String} {strings : List String} {address : UInt64}
    (h : w.placeStrings name strings = .ok (address, next)) : w.Change next := by
  rcases bind_eq_ok.mp h with ⟨_, _, hdeclared⟩
  rcases bind_eq_ok.mp hdeclared with ⟨declaration, hfound, hrest⟩
  split at hrest
  · dsimp only at hrest
    split at hrest
    · cases hrest
    · rcases bind_eq_ok.mp hrest with ⟨config, hconfig, hplace⟩
      refine place (config_eq_ok.mp hconfig) ?_ ?_ ?_ ?_ hplace
      · simp
      · rfl
      · exact (stringsUnits_eq _ _ _).symm
      · trivial
  · cases hrest

theorem perform (hw : w.Configured) {operation : Operation} {address : Option UInt64}
    (h : w.perform operation = .ok (address, next)) : w.Change next := by
  cases operation
  all_goals
    rcases map_eq_ok.mp h with ⟨_, hperformed, hpair⟩
    cases hpair
  case configure => exact .configure hperformed
  case declareNumbers => exact .declareNumbers hperformed
  case declareSpace => exact .declareSpace hperformed
  case declareStrings => exact .declareStrings hperformed
  case openSection => exact .openSection hperformed
  case closeSection => exact .closeSection hperformed
  case label => exact .label hw hperformed
  case moveTo => exact .moveTo hw hperformed
  case align => exact .align hw hperformed
  case placeNumbers => exact .placeNumbers hw hperformed
  case placeSpace => exact .placeSpace hw hperformed
  case placeStrings => exact .placeStrings hperformed

end Change

theorem step_change (hw : w.Configured) (operation : Operation) :
    w.Change (w.step operation) := by
  unfold step
  split
  · rename_i hperformed
    exact .perform hw hperformed
  · exact .kept

/-!
# Runs
-/

def sections (w : Writer) : List Section :=
  w.layout.sections ++ w.opened.toList.map fun opened => ⟨opened.start, w.cursor, opened.records⟩

def Fills (w : Writer) : Prop :=
  ∀ config, w.layout.config = some config → Filled config.unitBits w.sections w.cursor

namespace Fills

theorem start : Fills {} := by
  intro config hconfig
  cases hconfig

theorem change (h : w.Fills) (hw : w.Configured) (hchange : w.Change next) : next.Fills := by
  intro other hother
  cases hchange with
  | kept => exact h other hother
  | configured hmissing _ =>
      rw [hw.missing hmissing]
      exact filled_nil _
  | declared _ _ => exact h other hother
  | opened _ hopened =>
      have hsections : w.sections = w.layout.sections := by
        simp [sections, hopened]
      have hfilled := h other hother
      rw [hsections] at hfilled
      exact hfilled.opened
  | closed hopened =>
      have hfilled := h other hother
      rw [sections, hopened] at hfilled
      rw [sections, Option.toList_none, List.map_nil, List.append_nil]
      exact hfilled
  | appended hconfig hopened hafter hsound =>
      cases hconfig.symm.trans hother
      have hfilled := h _ hconfig
      rw [sections, hopened] at hfilled
      exact hfilled.appended hafter hsound

end Fills

theorem run_fills {w : Writer} (hw : w.Configured) (h : w.Fills) (operations : List Operation) :
    (w.run operations).Configured ∧ (w.run operations).Fills := by
  unfold run
  induction operations generalizing w with
  | nil =>
      exact ⟨hw, h⟩
  | cons operation rest ih =>
      have hchange := step_change hw operation
      exact ih (hw.change hchange) (h.change hw hchange)

end Writer

/-!
# Frozen layouts
-/

/-- The sections of a layout are filled from address 0 on, and no two of its records
overlap. -/
structure Layout.Accounted (l : Layout) (config : Config) (last : UInt64) : Prop where
  positive : 0 < config.unitBits
  filled : Filled config.unitBits l.sections last
  separate : (l.sections.flatMap Section.records).Pairwise fun r r' =>
    r.address.toNat + r.units config.unitBits ≤ r'.address.toNat

/-- Whatever calls were made, a layout without a configuration has no sections, and any
other is accounted for in units of its configuration. -/
theorem accounted_of_freeze {operations : List Operation} {layout : Layout}
    (h : (({} : Writer).run operations).freeze = .ok layout) :
    (layout.config = none ∧ layout.sections = []) ∨
      ∃ config last, layout.config = some config ∧ layout.Accounted config last := by
  rcases Writer.run_fills .start .start operations with ⟨hconfigured, hfills⟩
  rcases Context.freeze_eq_ok.mp h with ⟨hclosed, rfl⟩
  generalize ({} : Writer).run operations = w at *
  cases hconfig : w.layout.config with
  | none =>
      left
      rw [hconfigured.missing hconfig]
      exact ⟨rfl, rfl⟩
  | some config =>
      right
      have hopened : w.opened = none := by
        simpa [Writer.isOpen] using hclosed
      have hfilled := hfills config hconfig
      rw [Writer.sections, hopened, Option.toList_none, List.map_nil, List.append_nil] at hfilled
      exact ⟨config, w.cursor, rfl, hconfigured.positive config hconfig, hfilled,
        hfilled.separate⟩

def sampleOperations : List Operation :=
  [.declareSpace "gap" ".space" 0, .configure ⟨".data", "M", 16⟩,
    .declareSpace "gap" ".space" 0, .declareNumbers "word" ".word" (.card 32),
    .declareStrings "text" ".asciz" true, .openSection, .label "first",
    .placeNumbers "word" [⟨1, by decide, by decide⟩, ⟨2, by decide, by decide⟩],
    .placeNumbers "word" [], .placeStrings "text" ["ab", "c"], .align 8, .closeSection,
    .openSection, .moveTo 20, .moveTo 3, .placeSpace "gap" 2, .closeSection]

theorem accounted_of_freeze_sample :
    ∃ layout, (({} : Writer).run sampleOperations).freeze = .ok layout ∧
      layout.sections.map (fun s => (s.start, s.records.map Record.address, s.stop)) =
        [(0, [0, 0, 4, 7], 8), (8, [20, 20], 22)] ∧
      ∃ config last, layout.config = some config ∧ layout.Accounted config last := by
  have hsections :
      (({} : Writer).run sampleOperations).freeze.toOption.map (fun layout =>
        (layout.config.isSome,
          layout.sections.map fun s => (s.start, s.records.map Record.address, s.stop))) =
        some (true, [(0, [0, 0, 4, 7], 8), (8, [20, 20], 22)]) := by
    decide
  rcases Option.map_eq_some_iff.mp hsections with ⟨layout, hsome, hpair⟩
  have hlayout := toOption_eq_some.mp hsome
  rw [Prod.mk.injEq] at hpair
  rcases accounted_of_freeze hlayout with hnone | haccounted
  · rw [hnone.left] at hpair
    cases hpair.left
  · exact ⟨layout, hlayout, hpair.right, haccounted⟩

end Data
end Stimulus

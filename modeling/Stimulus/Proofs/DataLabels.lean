import Stimulus.Proofs.DataCommutes
import Stimulus.Proofs.FilledSections
import Stimulus.Proofs.TreeSteps

/-!
# Data labels

## Two lists in step

A data label is kept twice: among the declarations, where references find it, and as
a record of the section that it stands in.  A call that declares one does both or
neither, and no other call does one of them, so that the two lists are the same.

## Answers

The address of a name is told by that list alone, whatever code labels there are.
-/

namespace Stimulus

open Checked

/-!
# Labels of a layout
-/

namespace Data

def Record.label? : Record → Option (String × UInt64)
  | .label name address => some (name, address)
  | _ => none

def labelsOf (sections : List Section) : List (String × UInt64) :=
  sections.flatMap fun s => s.records.filterMap Record.label?

def Layout.labels (l : Layout) : List (String × UInt64) :=
  labelsOf l.sections

namespace Writer

variable {w next : Writer} {opened : OpenSection} {r : Record} {cursor : UInt64}

def labels (w : Writer) : List (String × UInt64) :=
  labelsOf w.sections

theorem labels_append (h : w.opened = some opened) :
    (w.append opened r cursor).labels = w.labels ++ r.label?.toList := by
  have hrecord : [r].filterMap Record.label? = r.label?.toList := by
    cases hlabel : r.label? <;> simp [hlabel]
  simp [labels, labelsOf, sections, append, h, hrecord]

theorem labels_append_of_none (h : w.opened = some opened) (hlabel : r.label? = none) :
    (w.append opened r cursor).labels = w.labels := by
  rw [labels_append h, hlabel]
  exact List.append_nil _

theorem labels_congr (hlayout : next.layout.sections = w.layout.sections)
    (hopened : next.opened = w.opened) : next.labels = w.labels := by
  unfold labels sections
  rw [hlayout, hopened]
  cases w.opened <;> simp [labelsOf]

/-!
# Calls that place no label
-/

theorem labels_of_configure {config : Config} (h : w.configure config = .ok next) :
    next.labels = w.labels := by
  unfold configure at h
  split at h
  · cases h
  · split at h
    · cases h
    · cases h
      rfl

theorem labels_of_declare {name : String} {declaration : Declaration}
    (h : w.declare name declaration = .ok next) : next.labels = w.labels := by
  unfold declare at h
  split at h
  · cases h
  · cases h
    rfl

theorem labels_of_declareNumbers {name text : String} {numbers : NumberType}
    (h : w.declareNumbers name text numbers = .ok next) : next.labels = w.labels := by
  rcases bind_eq_ok.mp h with ⟨_, _, hrest⟩
  dsimp only at hrest
  split at hrest
  · cases hrest
  · split at hrest
    · cases hrest
    · exact labels_of_declare hrest

theorem labels_of_openSection (h : w.openSection = .ok next) : next.labels = w.labels := by
  rcases bind_eq_ok.mp h with ⟨_, _, hrest⟩
  dsimp only at hrest
  split at hrest
  · cases hrest
  · rename_i hopened
    cases hrest
    have hnone : w.opened = none := by
      simpa [isOpen] using hopened
    simp [labels, labelsOf, sections, hnone]

theorem labels_of_closeSection (h : w.closeSection = .ok next) : next.labels = w.labels := by
  unfold closeSection at h
  split at h
  · cases h
  · rename_i hopened
    cases h
    simp [labels, sections, hopened]

theorem labels_of_moveTo {address : UInt64} (h : w.moveTo address = .ok next) :
    next.labels = w.labels := by
  rcases bind_eq_ok.mp h with ⟨opened, hsection, hrest⟩
  dsimp only at hrest
  split at hrest
  · cases hrest
  · cases hrest
    exact labels_append_of_none (currentSection_eq_ok.mp hsection) rfl

theorem labels_of_align {alignment : UInt64} (h : w.align alignment = .ok next) :
    next.labels = w.labels := by
  unfold align at h
  dsimp only at h
  split at h
  · cases h
  · rcases bind_eq_ok.mp h with ⟨opened, hsection, hrest⟩
    rcases bind_eq_ok.mp hrest with ⟨aligned, _, hnext⟩
    split at hnext
    · cases hnext
      exact labels_append_of_none (currentSection_eq_ok.mp hsection) rfl
    · cases hnext
      exact labels_congr rfl rfl

theorem labels_of_place {units : Nat} {record : UInt64 → Record} {address : UInt64}
    (hlabel : (record w.cursor).label? = none)
    (h : w.place units record = .ok (address, next)) : next.labels = w.labels := by
  rcases bind_eq_ok.mp h with ⟨opened, hsection, hrest⟩
  rcases bind_eq_ok.mp hrest with ⟨cursor, _, hnext⟩
  cases hnext
  exact labels_append_of_none (currentSection_eq_ok.mp hsection) hlabel

theorem labels_of_placeNumbers {name : String} {values : List Value} {address : UInt64}
    (h : w.placeNumbers name values = .ok (address, next)) : next.labels = w.labels := by
  rcases bind_eq_ok.mp h with ⟨_, _, hdeclared⟩
  rcases bind_eq_ok.mp hdeclared with ⟨declaration, _, hrest⟩
  split at hrest
  · dsimp only at hrest
    split at hrest
    · cases hrest
    · rcases bind_eq_ok.mp hrest with ⟨_, _, hconfig⟩
      rcases bind_eq_ok.mp hconfig with ⟨_, _, hplace⟩
      exact labels_of_place rfl hplace
  · cases hrest

theorem labels_of_placeSpace {name : String} {units address : UInt64}
    (h : w.placeSpace name units = .ok (address, next)) : next.labels = w.labels := by
  rcases bind_eq_ok.mp h with ⟨_, _, hdeclared⟩
  rcases bind_eq_ok.mp hdeclared with ⟨declaration, _, hrest⟩
  split at hrest
  · dsimp only at hrest
    split at hrest
    · cases hrest
    · exact labels_of_place rfl hrest
  · cases hrest

theorem labels_of_placeStrings {name : String} {strings : List String} {address : UInt64}
    (h : w.placeStrings name strings = .ok (address, next)) : next.labels = w.labels := by
  rcases bind_eq_ok.mp h with ⟨_, _, hdeclared⟩
  rcases bind_eq_ok.mp hdeclared with ⟨declaration, _, hrest⟩
  split at hrest
  · dsimp only at hrest
    split at hrest
    · cases hrest
    · rcases bind_eq_ok.mp hrest with ⟨_, _, hplace⟩
      exact labels_of_place rfl hplace
  · cases hrest

theorem labels_of_perform {operation : Operation} {address : Option UInt64}
    (hoperation : ∀ name, operation ≠ .label name)
    (h : w.perform operation = .ok (address, next)) : next.labels = w.labels := by
  cases operation
  all_goals
    rcases map_eq_ok.mp h with ⟨_, hperformed, hpair⟩
    cases hpair
  case configure => exact labels_of_configure hperformed
  case declareNumbers => exact labels_of_declareNumbers hperformed
  case declareSpace =>
      rcases bind_eq_ok.mp hperformed with ⟨_, _, hdeclared⟩
      exact labels_of_declare hdeclared
  case declareStrings =>
      rcases bind_eq_ok.mp hperformed with ⟨_, _, hdeclared⟩
      exact labels_of_declare hdeclared
  case openSection => exact labels_of_openSection hperformed
  case closeSection => exact labels_of_closeSection hperformed
  case label => exact absurd rfl (hoperation _)
  case moveTo => exact labels_of_moveTo hperformed
  case align => exact labels_of_align hperformed
  case placeNumbers => exact labels_of_placeNumbers hperformed
  case placeSpace => exact labels_of_placeSpace hperformed
  case placeStrings => exact labels_of_placeStrings hperformed

end Writer
end Data

/-!
# Labels with an address
-/

def LabelDeclaration.address? (e : LabelDeclaration) : Option (String × UInt64) :=
  e.place.address?.map fun address => (e.name, address)

theorem LabelDeclaration.address?_eq_some {e : LabelDeclaration} {name : String}
    {address : UInt64} :
    e.address? = some (name, address) ↔ e.name = name ∧ e.place = .data address := by
  unfold address?
  cases e.place with
  | code block position => simp [LabelPlace.address?]
  | data address' => simp [LabelPlace.address?, Prod.ext_iff]

namespace Labels

variable {t t' : Labels} {name : String} {address : UInt64}

def addresses (t : Labels) : List (String × UInt64) :=
  t.entries.filterMap LabelDeclaration.address?

theorem mem_addresses :
    (name, address) ∈ t.addresses ↔ ∃ e ∈ t.entries, e.name = name ∧ e.place = .data address := by
  unfold addresses
  rw [List.mem_filterMap]
  constructor
  · intro h
    rcases h with ⟨e, he, haddress⟩
    exact ⟨e, he, LabelDeclaration.address?_eq_some.mp haddress⟩
  · intro h
    rcases h with ⟨e, he, haddress⟩
    exact ⟨e, he, LabelDeclaration.address?_eq_some.mpr haddress⟩

theorem addresses_declareAt {scope : BlockId} {position : Nat}
    (h : t.declareAt name scope position = .ok t') : t'.addresses = t.addresses := by
  rcases declare_eq_ok.mp h with ⟨_, rfl⟩
  simp [addresses, LabelDeclaration.address?, LabelPlace.address?]

theorem addresses_declareAddress (h : t.declareAddress name address = .ok t') :
    t'.addresses = t.addresses ++ [(name, address)] := by
  rcases declare_eq_ok.mp h with ⟨_, rfl⟩
  simp [addresses, LabelDeclaration.address?, LabelPlace.address?]

theorem WellScoped.mem_addresses (h : t.WellScoped) :
    (name, address) ∈ t.addresses ↔ ⟨name, .root, .data address⟩ ∈ t.entries := by
  rw [Labels.mem_addresses]
  constructor
  · intro hdeclared
    rcases hdeclared with ⟨⟨_, scope, _⟩, he, rfl, rfl⟩
    have hscope : scope = .root := h.root_of_address he rfl
    rw [hscope] at he
    exact he
  · intro he
    exact ⟨_, he, rfl, rfl⟩

theorem nodup_declareAddress (h : t.WellScoped) (hnodup : (t.addresses.map Prod.fst).Nodup)
    (hdeclare : t.declareAddress name address = .ok t') :
    (t'.addresses.map Prod.fst).Nodup := by
  rw [addresses_declareAddress hdeclare, List.map_append, List.map_cons, List.map_nil,
    ← List.concat_eq_append]
  apply List.Nodup.concat _ hnodup
  intro hmem
  rcases List.mem_map.mp hmem with ⟨⟨_, address'⟩, hentry, rfl⟩
  have hnew := (declare_eq_ok.mp hdeclare).left _ (h.mem_addresses.mp hentry) rfl
  exact hnew rfl

/-!
# Answers
-/

theorem named_eq_nil : t.named name = [] ↔ ∀ e ∈ t.entries, e.name ≠ name := by
  simp [named]

theorem resolve_of_undeclared (h : ∀ e ∈ t.entries, e.name ≠ name) (origin : BlockId) :
    t.resolve name origin = .error (.labelNeverDeclared name) := by
  unfold resolve
  simp [named_eq_nil.mpr h]

theorem resolve_of_declared {e : LabelDeclaration} (he : e ∈ t.entries) (hname : e.name = name)
    (origin : BlockId) :
    (∃ place, t.resolve name origin = .ok place) ∨
      ∃ count, t.resolve name origin = .error (.labelAmbiguous name count) := by
  have hsome : (t.named name).isEmpty = false := by
    rw [List.isEmpty_eq_false_iff_exists_mem]
    exact ⟨e, mem_named.mpr ⟨he, hname⟩⟩
  simp only [resolve, hsome]
  cases enclosing? (t.named name) origin with
  | some found => exact Or.inl ⟨found.place, rfl⟩
  | none =>
      rcases nearest (t.named name) origin with _ | ⟨found, _ | ⟨other, rest⟩⟩
      · exact Or.inr ⟨_, rfl⟩
      · exact Or.inl ⟨found.place, rfl⟩
      · exact Or.inr ⟨_, rfl⟩

theorem dataAddress_of_undeclared (h : ∀ e ∈ t.entries, e.name ≠ name) :
    t.dataAddress name = .error (.labelNeverDeclared name) := by
  unfold dataAddress
  rw [resolve_of_undeclared h]

theorem dataAddress_of_declared {e : LabelDeclaration} (he : e ∈ t.entries)
    (hname : e.name = name) :
    (∃ address, t.dataAddress name = .ok address) ∨
      t.dataAddress name = .error (.labelWithoutAddress name) := by
  unfold dataAddress
  rcases resolve_of_declared he hname .root with ⟨place, hplace⟩ | ⟨count, hcount⟩
  · rw [hplace]
    cases place with
    | code block position => exact Or.inr rfl
    | data address => exact Or.inl ⟨address, rfl⟩
  · rw [hcount]
    exact Or.inr rfl

theorem dataAddress_undeclared_iff :
    t.dataAddress name = .error (.labelNeverDeclared name) ↔
      ∀ e ∈ t.entries, e.name ≠ name := by
  constructor
  · intro h e he hname
    rcases dataAddress_of_declared he hname with ⟨address, haddress⟩ | hcode
    · rw [haddress] at h
      cases h
    · rw [hcode] at h
      cases h
  · exact dataAddress_of_undeclared

theorem WellScoped.dataAddress_eq_ok (h : t.WellScoped) :
    t.dataAddress name = .ok address ↔ (name, address) ∈ t.addresses := by
  rw [Labels.dataAddress_eq_ok h, h.mem_addresses]

theorem WellScoped.withoutAddress_iff (h : t.WellScoped) :
    t.dataAddress name = .error (.labelWithoutAddress name) ↔
      (∃ e ∈ t.code, e.name = name) ∧ ∀ address, (name, address) ∉ t.addresses := by
  constructor
  · intro hcode
    have hnone : ∀ address, (name, address) ∉ t.addresses := by
      intro address haddress
      rw [h.dataAddress_eq_ok.mpr haddress] at hcode
      cases hcode
    refine ⟨?_, hnone⟩
    by_contra hcontra
    have hundeclared : ∀ e ∈ t.entries, e.name ≠ name := by
      intro e he hname
      cases hplace : e.place with
      | code block position =>
          have he' : e ∈ t.code := List.mem_filter.mpr ⟨he, by rw [hplace]; rfl⟩
          exact hcontra ⟨e, he', hname⟩
      | data address =>
          exact hnone address (Labels.mem_addresses.mpr ⟨e, he, hname, hplace⟩)
    rw [dataAddress_of_undeclared hundeclared] at hcode
    cases hcode
  · intro hparts
    rcases hparts with ⟨⟨e, he, hname⟩, hnone⟩
    rcases dataAddress_of_declared (List.mem_filter.mp he).left hname with
      ⟨address, haddress⟩ | hcode
    · exact absurd (h.dataAddress_eq_ok.mp haddress) (hnone address)
    · exact hcode

theorem WellScoped.withoutCode (h : t.WellScoped) : (Labels.mk t.addressed).WellScoped where
  unique e he e' he' :=
    h.unique e (List.mem_filter.mp he).left e' (List.mem_filter.mp he').left
  placed e he := h.placed e (List.mem_filter.mp he).left

theorem addresses_addressed (t : Labels) : (mk t.addressed).addresses = t.addresses := by
  unfold addresses addressed
  rw [List.filterMap_filter]
  congr 1
  funext e
  unfold LabelDeclaration.address?
  cases e.place <;> rfl

end Labels

/-!
# Labels of a run
-/

namespace Context

structure PlacesLabels (c : Context) : Prop where
  placed : c.labels.addresses = c.data.labels
  distinct : (c.labels.addresses.map Prod.fst).Nodup

namespace PlacesLabels

variable {c next : Context} {command : Command} {outcome : Except Refusal Reply}

theorem initially (name : String) (model : Model) (options : Options)
    (comments : CommentTokens) : PlacesLabels (start name model options comments) where
  placed := rfl
  distinct := List.nodup_nil

theorem congr (h : PlacesLabels c) (hlabels : next.labels.addresses = c.labels.addresses)
    (hdata : next.data.labels = c.data.labels) : PlacesLabels next where
  placed := by
    rw [hlabels, hdata]
    exact h.placed
  distinct := by
    rw [hlabels]
    exact h.distinct

theorem step (hsound : Sound c) (h : PlacesLabels c) (hstep : Step c command outcome next) :
    PlacesLabels next := by
  cases hstep with
  | @labelled name labels hlabels =>
      have hnext : (({ c with labels } : Context).push (.label name)).labels = labels := by
        simp [push]
      apply h.congr
      · rw [hnext, Labels.addresses_declareAt hlabels]
      · simp [push]
  | @dataLabelled name opened labels hopened hlabels =>
      constructor
      · rw [Labels.addresses_declareAddress hlabels, Data.Writer.labels_append hopened, h.placed]
        rfl
      · exact Labels.nodup_declareAddress hsound.labels h.distinct hlabels
  | dataPerformed hoperation hdata =>
      exact h.congr rfl (Data.Writer.labels_of_perform hoperation hdata)
  | _ =>
      exact h.congr (by simp [push, access]) (by simp [push, access])

end PlacesLabels

theorem run_placesLabels {c : Context} (hsound : Sound c) (h : PlacesLabels c)
    (commands : List Command) : PlacesLabels (c.run commands) := by
  induction commands generalizing c with
  | nil =>
      exact h
  | cons command rest ih =>
      rw [run_cons]
      exact ih (hsound.perform command) (h.step hsound (c.perform_step command))

end Context

/-- The labels of a sealed template with an address are those that stand in its
sections, and a name has the address of its data label. -/
structure AddressesDataLabels (t : SealedTemplate) : Prop where
  placed : t.labels.addresses = t.data.labels
  distinct : (t.data.labels.map Prod.fst).Nodup
  found : ∀ name address,
    t.labels.dataAddress name = .ok address ↔ (name, address) ∈ t.data.labels
  withoutAddress : ∀ name,
    t.labels.dataAddress name = .error (.labelWithoutAddress name) ↔
      (∃ e ∈ t.labels.code, e.name = name) ∧ ∀ address, (name, address) ∉ t.data.labels
  undeclared : ∀ name,
    t.labels.dataAddress name = .error (.labelNeverDeclared name) ↔
      ∀ e ∈ t.labels.entries, e.name ≠ name
  unhidden : ∀ name address,
    (Labels.mk t.labels.addressed).dataAddress name = .ok address ↔
      t.labels.dataAddress name = .ok address

section

variable {name : String} {model : Model} {options : Options} {comments : CommentTokens}
variable {commands : List Command} {t : SealedTemplate}

/-- In every template that a build seals to, declarations and sections agree on the
data labels. -/
theorem addressesDataLabels_of_seal
    (h : ((Context.start name model options comments).run commands).seal = .ok t) :
    AddressesDataLabels t := by
  have hsound := Context.Sound.initially name model options comments
  have hplaces := Context.run_placesLabels hsound
    (Context.PlacesLabels.initially name model options comments) commands
  rcases Context.seal_eq_ok.mp h with ⟨_, hclosed, phases, bindings, _, _, ht⟩
  have hlabels : t.labels.WellScoped := by
    rw [ht]
    exact (hsound.run commands).labels
  have hplaced : t.labels.addresses = t.data.labels := by
    rw [ht]
    refine hplaces.placed.trans ?_
    have hopened : ((Context.start name model options comments).run commands).data.opened =
        none := by
      simpa [Data.Writer.isOpen] using hclosed
    simp [Data.Writer.labels, Data.Writer.sections, Data.Layout.labels, hopened,
      Context.sealedWith]
  constructor
  case placed => exact hplaced
  case distinct =>
      rw [← hplaced, ht]
      exact hplaces.distinct
  case found =>
      intro label address
      rw [← hplaced]
      exact hlabels.dataAddress_eq_ok
  case withoutAddress =>
      intro label
      rw [← hplaced]
      exact hlabels.withoutAddress_iff
  case undeclared =>
      intro label
      exact Labels.dataAddress_undeclared_iff
  case unhidden =>
      intro label address
      rw [hlabels.withoutCode.dataAddress_eq_ok, Labels.addresses_addressed,
        hlabels.dataAddress_eq_ok]

end

def SampleBuild.withDataLabels : List Command :=
  SampleBuild.commands ++
    [.data (.label "outside"), .data .openSection, .data (.moveTo 16), .data (.label "table"),
      .data (.label "tail"), .data .closeSection, .openBlock .plain {}, .label "tail",
      .label "twice", .closeBlock, .openBlock .plain {}, .label "table", .label "twice",
      .closeBlock]

theorem addressesDataLabels_of_seal_sample :
    ∃ t, (SampleBuild.start.run SampleBuild.withDataLabels).seal = .ok t ∧
      (t.data.labels, t.labels.code.map LabelDeclaration.name,
        ["table", "tail", "twice", "outside"].map t.labels.dataAddress) =
          ([("table", 0), ("tail", 16)], ["done", "tail", "twice", "table", "twice"],
            [.ok 0, .ok 16, .error (.labelWithoutAddress "twice"),
              .error (.labelNeverDeclared "outside")]) ∧
      AddressesDataLabels t := by
  have hlabels : ((SampleBuild.start.run SampleBuild.withDataLabels).seal.toOption.map
      fun t => (t.data.labels, t.labels.code.map LabelDeclaration.name,
        ["table", "tail", "twice", "outside"].map t.labels.dataAddress)) =
      some ([("table", 0), ("tail", 16)], ["done", "tail", "twice", "table", "twice"],
        [.ok 0, .ok 16, .error (.labelWithoutAddress "twice"),
          .error (.labelNeverDeclared "outside")]) := by
    decide +kernel
  rcases Option.map_eq_some_iff.mp hlabels with ⟨t, hsome, hanswers⟩
  have ht := toOption_eq_some.mp hsome
  exact ⟨t, ht, hanswers, addressesDataLabels_of_seal ht⟩

end Stimulus

import Formulary.Proofs.Tree.Every

/-!
The lines of a tree. What a node is made of lies in the order of the source and not above the node, but for two things:
an argument may be moved before pairs, and of the code in a string it is only said that it does not lie above the
string, since that of a heredoc lies below what follows on the line.
-/

namespace Formulary

def Piece.code? : Piece Node → Option Node
  | text _ => none
  | code pos body => some (.code pos body)

namespace Node

/-- The nodes that a node is made of, as the source has them one after the other, with embedded code as nodes of its
own. -/
def constituents : Node → List Node
  | string _ pieces | shell _ pieces => pieces.filterMap Piece.code?
  | branchModifier _ _ cond statement => [statement, cond]
  | loop _ _ cond body true => body ++ [cond]
  | node => node.children

/-- The nodes that a node is made of, without embedded code. -/
def surface : Node → List Node
  | string .. | shell .. => []
  | node => node.constituents

theorem surface_subset (node : Node) : node.surface ⊆ node.constituents := by
  unfold surface
  split
  · exact List.nil_subset _
  · exact List.nil_subset _
  · exact List.Subset.refl _

/-- A node that is in another at any depth, or is the other. -/
inductive Leads (inside : Node → List Node) (whole : Node) : Node → Prop
  | self : Leads inside whole whole
  | inner {node held : Node} (leads : Leads inside whole node) (mem : held ∈ inside node) :
      Leads inside whole held

/-- A node that is in another at any depth, or is the other. -/
abbrev Holds : Node → Node → Prop :=
  Leads constituents

/-- A node that is in another, outside of strings in it. -/
abbrev Covers : Node → Node → Prop :=
  Leads surface

section Leads

variable {inside inside' : Node → List Node} {whole node held : Node} {P : Node → Prop}

theorem Leads.trans (outer : Leads inside whole node) (deeper : Leads inside node held) :
    Leads inside whole held := by
  induction deeper with
  | self => exact outer
  | inner _ mem ih => exact .inner ih mem

theorem Leads.mono (wider : ∀ node, inside node ⊆ inside' node) (h : Leads inside whole held) :
    Leads inside' whole held := by
  induction h with
  | self => exact .self
  | inner _ mem ih => exact .inner ih (wider _ mem)

theorem Covers.holds (h : node.Covers held) : node.Holds held :=
  Leads.mono surface_subset h

theorem forall_leads_iff : (∀ held, Leads inside node held → P held) ↔
    P node ∧ ∀ inner ∈ inside node, ∀ held, Leads inside inner held → P held := by
  refine ⟨fun all => ⟨all _ .self, fun inner mem held leads => all _ (Leads.trans (.inner .self mem) leads)⟩, ?_⟩
  rintro ⟨here, below⟩ held leads
  suffices held = node ∨ ∃ inner ∈ inside node, Leads inside inner held by
    obtain rfl | ⟨inner, mem, leads⟩ := this
    · exact here
    · exact below inner mem held leads
  induction leads with
  | self => exact .inl rfl
  | @inner outer held _ mem ih =>
    obtain rfl | ⟨inner, among, leads⟩ := ih
    · exact .inr ⟨held, mem, .self⟩
    · exact .inr ⟨inner, among, .inner leads mem⟩

end Leads

/-- All lines of a node come before all lines of another, outside of strings. -/
def Precedes (first second : Node) : Prop :=
  ∀ node, first.Covers node → ∀ other, second.Covers other → node.line ≤ other.line

/-- An argument that stands before pairs without braces wherever it is written. -/
def isSpread : Node → Bool
  | splat .. | blockPass .. => true
  | _ => false

def isBareHash : Node → Bool
  | hash _ _ braces => !braces
  | _ => false

/-- A node precedes another, but maybe for an argument that is moved before pairs. -/
def Before (first second : Node) : Prop :=
  first.Precedes second ∨ first.isSpread = true ∧ second.isBareHash = true

/-- Whether a node is made of arguments, among which some may be moved. -/
def listsArguments : Node → Bool
  | call .. | keywordCall .. | index .. | array .. | whenClause .. => true
  | _ => false

/-- What a node is made of does not lie above it, and is in order outside of strings. -/
structure Laid (node : Node) : Prop where
  begins : ∀ held ∈ node.constituents, node.line ≤ held.line
  ordered : node.surface.Pairwise Before
  strict : node.listsArguments = false → node.surface.Pairwise Precedes

/-- A node in whose tree the lines are in order. -/
def AllLaid (node : Node) : Prop :=
  ∀ held, node.Holds held → held.Laid

/-- A node whose tree lies between two lines, outside of strings, with its lines in order. -/
structure Fits (low high : Nat) (node : Node) : Prop where
  lines : ∀ held, node.Covers held → low ≤ held.line ∧ held.line ≤ high
  laid : node.AllLaid

end Node

/-- Nodes one after the other, between two lines. -/
structure Stretch (low high : Nat) (nodes : List Node) : Prop where
  le : low ≤ high
  fits : ∀ node ∈ nodes, node.Fits low high
  ordered : nodes.Pairwise Node.Precedes

/-- Nodes between two lines, one after the other but for arguments that are moved. -/
structure Listing (low high : Nat) (nodes : List Node) : Prop where
  le : low ≤ high
  fits : ∀ node ∈ nodes, node.Fits low high
  ordered : nodes.Pairwise Node.Before

namespace Node

variable {low low' high high' : Nat} {node held : Node}

theorem AllLaid.of_holds (laid : node.AllLaid) (holds : node.Holds held) : held.AllLaid :=
  fun other deeper => laid other (holds.trans deeper)

theorem AllLaid.line_le (laid : node.AllLaid) (holds : node.Holds held) : node.line ≤ held.line := by
  induction holds with
  | self => exact Nat.le_refl _
  | inner holds mem ih => exact Nat.le_trans ih ((laid _ holds).begins _ mem)

theorem Before.of_covers {first second : Node} (before : first.Before second) (braced : second.isBareHash = false)
    (covers : second.Covers held) : first.Before held := by
  obtain precedes | ⟨-, hash⟩ := before
  · exact .inl fun node mem other deeper => precedes node mem other (covers.trans deeper)
  · rw [braced] at hash
    contradiction

namespace Fits

theorem low_le (h : node.Fits low high) : low ≤ node.line :=
  (h.lines _ .self).1

theorem le_high (h : node.Fits low high) : node.line ≤ high :=
  (h.lines _ .self).2

theorem le (h : node.Fits low high) : low ≤ high :=
  Nat.le_trans h.low_le h.le_high

theorem mono (h : node.Fits low high) (wider : low' ≤ low) (wider' : high ≤ high') : node.Fits low' high' :=
  ⟨fun held covers => ⟨Nat.le_trans wider (h.lines held covers).1, Nat.le_trans (h.lines held covers).2 wider'⟩, h.laid⟩

theorem below (h : node.Fits low high) (wider : low' ≤ low) : node.Fits low' high :=
  h.mono wider (Nat.le_refl _)

/-- A tree lies between the line of its root and that where it ends. -/
theorem tight (h : node.Fits low high) : node.Fits node.line high :=
  ⟨fun held covers => ⟨h.laid.line_le covers.holds, (h.lines held covers).2⟩, h.laid⟩

theorem precedes {mid : Nat} {other : Node} (h : node.Fits low mid) (h' : other.Fits mid high) : node.Precedes other :=
  fun held covers inner covers' => Nat.le_trans (h.lines held covers).2 (h'.lines inner covers').1

/-- A node made of arguments that lie behind it. -/
theorem listing (begins : low ≤ node.line) (parts : Listing node.line high node.constituents)
    (plain : node.surface = node.constituents)
    (strict : node.listsArguments = false → node.surface.Pairwise Precedes) : node.Fits low high := by
  refine ⟨forall_leads_iff.2 ⟨⟨begins, parts.le⟩, fun inner mem held covers => ?_⟩,
    forall_leads_iff.2 ⟨⟨fun inner mem => (parts.fits inner mem).low_le, plain ▸ parts.ordered, strict⟩,
      fun inner mem => (parts.fits inner mem).laid⟩⟩
  obtain ⟨least, most⟩ := (parts.fits inner (plain ▸ mem)).lines held covers
  exact ⟨Nat.le_trans begins least, most⟩

/-- A node made of others that lie behind it. -/
theorem of (begins : low ≤ node.line) (parts : Stretch node.line high node.constituents)
    (plain : node.surface = node.constituents) : node.Fits low high :=
  .listing begins ⟨parts.le, parts.fits, parts.ordered.imp .inl⟩ plain fun _ => plain ▸ parts.ordered

/-- A string with code in it. -/
theorem coded (begins : low ≤ node.line) (ends : node.line ≤ high)
    (code : ∀ inner ∈ node.constituents, node.line ≤ inner.line ∧ inner.AllLaid)
    (plain : node.surface = []) : node.Fits low high := by
  refine ⟨forall_leads_iff.2 ⟨⟨begins, ends⟩, fun inner mem => ?_⟩,
    forall_leads_iff.2 ⟨⟨fun inner mem => (code inner mem).1, plain ▸ .nil, fun _ => plain ▸ .nil⟩,
      fun inner mem => (code inner mem).2⟩⟩
  rw [plain] at mem
  cases mem

theorem leaf (begins : low ≤ node.line) (ends : node.line ≤ high) (plain : node.constituents = []) :
    node.Fits low high := by
  refine .coded begins ends ?_ (List.eq_nil_of_subset_nil (plain ▸ node.surface_subset))
  rw [plain]
  exact List.forall_mem_nil _

end Fits

end Node

variable {low mid high low' high' : Nat} {node : Node} {nodes others : List Node}

namespace Stretch

theorem nil (le : low ≤ high) : Stretch low high [] :=
  ⟨le, List.forall_mem_nil _, .nil⟩

theorem one (h : node.Fits low high) : Stretch low high [node] :=
  ⟨h.le, List.forall_mem_singleton.2 h, List.pairwise_singleton _ _⟩

theorem mono (h : Stretch low high nodes) (wider : low' ≤ low) (wider' : high ≤ high') : Stretch low' high' nodes :=
  ⟨Nat.le_trans wider (Nat.le_trans h.le wider'), fun node mem => (h.fits node mem).mono wider wider', h.ordered⟩

theorem below (h : Stretch low high nodes) (wider : low' ≤ low) : Stretch low' high nodes :=
  h.mono wider (Nat.le_refl _)

theorem loose (h : Stretch low high nodes) : Listing low high nodes :=
  ⟨h.le, h.fits, h.ordered.imp .inl⟩

end Stretch

theorem Listing.append (first : Listing low mid nodes) (rest : Listing mid high others) :
    Listing low high (nodes ++ others) := by
  refine ⟨Nat.le_trans first.le rest.le, List.forall_mem_append.2 ⟨fun node mem => ?_, fun node mem => ?_⟩,
    List.pairwise_append.2 ⟨first.ordered, rest.ordered, fun node mem other mem' => ?_⟩⟩
  · exact (first.fits node mem).mono (Nat.le_refl _) rest.le
  · exact (rest.fits node mem).below first.le
  · exact .inl ((first.fits node mem).precedes (rest.fits other mem'))

namespace Stretch

theorem append (first : Stretch low mid nodes) (rest : Stretch mid high others) :
    Stretch low high (nodes ++ others) := by
  have whole := first.loose.append rest.loose
  refine ⟨whole.le, whole.fits, List.pairwise_append.2 ⟨first.ordered, rest.ordered, fun node mem other mem' => ?_⟩⟩
  exact (first.fits node mem).precedes (rest.fits other mem')

theorem cons (first : node.Fits low mid) (rest : Stretch mid high others) : Stretch low high (node :: others) :=
  (one first).append rest

end Stretch

end Formulary

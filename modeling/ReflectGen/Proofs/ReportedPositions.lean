import ReflectGen.Proofs.FieldSource
import ReflectGen.Proofs.Numbering
import ReflectGen.Proofs.PreparedPieces

namespace ReflectGen.Parse

open Text Source

/-- The declarations that an action adds by itself. -/
def Action.decls : Action → List Decl
  | .declare ds | .define ds => ds
  | .enclose d _ _ | .link d | .label d _ => [d]
  | .splice _ => []

namespace SourceFile

section Origin

variable {src : SourceFile} {d : Decl}

theorem decls_or_below_of_mem_contribution {scope : Scope} {access : Access} {cs : Children}
    {action : Action} (h : d ∈ (src.contribution scope access cs action).1.preorder) :
    d ∈ action.decls ∨
      ∃ pick scope access, d ∈ (src.lower pick scope access cs).1.preorder := by
  cases action with
  | declare ds =>
    rw [contribution, Forest.preorder_leaves] at h
    exact .inl h
  | define ds =>
    rw [contribution, Forest.preorder_append, Forest.preorder_leaves, List.mem_append] at h
    exact h.symm.imp_right fun h => ⟨_, _, _, h⟩
  | splice pick => exact .inr ⟨_, _, _, h⟩
  | enclose d' inner start =>
    simp only [contribution, Forest.preorder, List.append_nil, List.mem_cons] at h
    exact h.imp List.mem_singleton.mpr fun h => ⟨_, _, _, h⟩
  | link d' =>
    simp only [contribution, Forest.preorder, List.append_nil, List.mem_cons] at h
    exact h.imp List.mem_singleton.mpr fun h => ⟨_, _, _, h⟩
  | label d' access =>
    rw [contribution, Forest.preorder_leaves] at h
    exact .inl h

/-- Every lowered declaration is added by the action of some node. -/
theorem action_of_mem_lower {pick : Pick} {scope : Scope} {access : Access} {cs : Children}
    (h : d ∈ (src.lower pick scope access cs).1.preorder) :
    ∃ pick scope access n below action,
      src.action? pick scope access n below = some action ∧ d ∈ action.decls := by
  induction cs generalizing pick scope access with
  | nil =>
    rw [lower] at h
    cases h
  | cons n below rest ihb ihr =>
    cases taken : src.action? pick scope access n below with
    | none =>
      rw [src.lower_cons_none rest taken] at h
      exact ihr h
    | some action =>
      have here : d ∈ (src.contribution scope access below action).1.preorder →
          ∃ pick scope access n below action,
            src.action? pick scope access n below = some action ∧ d ∈ action.decls := by
        intro h
        rcases decls_or_below_of_mem_contribution h with h | ⟨_, _, _, h⟩
        · exact ⟨pick, scope, access, n, below, action, taken, h⟩
        · exact ihb h
      rw [src.lower_cons_some rest taken] at h
      split at h
      · exact here h
      · rw [Forest.preorder_append, List.mem_append] at h
        exact h.elim here ihr

/-- A declaration has the text of a node for its spelling and stands where the node starts. -/
structure NamedBy (src : SourceFile) (n : Node) (d : Decl) : Prop where
  spelling : d.spelling = String.ofList (n.text src.text)
  location : d.location = src.place n

variable {scope : Scope} {access : Access} {n : Node} {cs : Children}

theorem namedBy_of_mem_declarators (h : d ∈ src.declarators scope access n cs) :
    ∃ name, src.NamedBy name d := by
  simp only [declarators, List.mem_filterMap, Option.map_eq_some_iff] at h
  obtain ⟨declarator, -, name, -, rfl⟩ := h
  exact ⟨name, rfl, rfl⟩

theorem namedBy_of_mem_functionDefinition (h : d ∈ src.functionDefinition scope access cs) :
    ∃ name, src.NamedBy name d := by
  simp only [functionDefinition, Option.mem_toList, Option.map_eq_some_iff] at h
  obtain ⟨name, -, rfl⟩ := h
  exact ⟨name, rfl, rfl⟩

/-- Fields and methods come from declarators and function definitions alone. -/
theorem namedBy_of_mem_item (kind : d.kind = .field ∨ d.kind = .method)
    (h : d ∈ (src.item scope access n cs).decls) : ∃ name, src.NamedBy name d := by
  have other : ∀ {d'}, d'.kind ≠ .field → d'.kind ≠ .method → d ∈ [d'] →
      ∃ name, src.NamedBy name d := by
    intro d' notField notMethod mem
    cases List.mem_singleton.mp mem
    exact absurd kind (not_or.mpr ⟨notField, notMethod⟩)
  unfold item at h
  split at h
  · exact other (by simp [declare]) (by simp [declare]) h
  · rename_i record _
    cases record <;>
      exact other (by simp [declare, recordKind]) (by simp [declare, recordKind]) h
  · exact other (by simp [enumeration, declare]) (by simp [enumeration, declare]) h
  · exact namedBy_of_mem_declarators h
  · exact namedBy_of_mem_declarators h
  · exact namedBy_of_mem_functionDefinition h
  · cases h
  · exact other (by simp [declare]) (by simp [declare]) h
  · split at h
    · exact other (by simp [declare]) (by simp [declare]) h
    · cases h
  · cases h
  · cases h
  · cases h
  · exact other (by simp [declare]) (by simp [declare]) h
  · cases h

theorem namedBy_of_mem_templateItem (kind : d.kind = .field ∨ d.kind = .method)
    (h : d ∈ (src.templateItem scope access n cs).decls) : ∃ name, src.NamedBy name d := by
  have member : d ∈ [src.templateMember scope access n cs] → ∃ name, src.NamedBy name d := by
    intro mem
    cases List.mem_singleton.mp mem
    simp [templateMember, declare] at kind
  unfold templateItem at h
  split at h
  · cases h
  · cases List.mem_singleton.mp h
    simp [declare] at kind
  · exact member h
  · exact member h
  · exact member h
  · exact namedBy_of_mem_item kind h

theorem namedBy_of_mem_action {pick : Pick} {action : Action}
    (taken : src.action? pick scope access n cs = some action)
    (kind : d.kind = .field ∨ d.kind = .method) (h : d ∈ action.decls) :
    ∃ name, src.NamedBy name d := by
  cases pick <;> simp only [action?, Option.ite_none_right_eq_some, Option.some.injEq] at taken <;>
    obtain ⟨-, rfl⟩ := taken
  · exact namedBy_of_mem_item kind h
  · exact namedBy_of_mem_templateItem kind h
  · exact namedBy_of_mem_item kind h
  · cases h
  · exact namedBy_of_mem_item kind h
  · split at h
    · exact namedBy_of_mem_item kind h
    · cases h

/-- Every field and method of a declaration tree is named by some node. -/
theorem namedBy_of_mem_nodes {parsed : Children} {node : DeclTree.Node}
    (mem : node ∈ (src.declTree parsed).nodes)
    (kind : node.decl.kind = .field ∨ node.decl.kind = .method) :
    ∃ name, src.NamedBy name node.decl := by
  rcases List.mem_cons.mp mem with rfl | mem
  · simp [DeclTree.unit, Decl.ofFile] at kind
  · have lowered := Forest.mem_preorder_map DeclTree.Node.decl mem
    rw [declTree, DeclTree.map_forest_ofForest] at lowered
    obtain ⟨_, _, _, _, _, action, taken, added⟩ := action_of_mem_lower lowered
    exact namedBy_of_mem_action taken kind added

end Origin

end SourceFile

/-- A name stands at a line and byte column of a source, which is where a report looks for it. -/
def StandsAt (source name : List Char) (line column : Nat) : Prop :=
  ∃ before after, source = before ++ (name ++ after) ∧
    line = (spot before).1 + 1 ∧ column = (spot before).2 + 1 ∧
      Report.charOffset source line column = before.length

theorem StandsAt.prefix_drop {source name : List Char} {line column : Nat}
    (h : StandsAt source name line column) :
    name <+: source.drop (Report.charOffset source line column) := by
  obtain ⟨before, after, rfl, -, -, offset⟩ := h
  rw [offset, List.drop_left]
  exact List.prefix_append name after

/-- What the line and column of a name, taken in the prepared text, say about the source. -/
inductive Placed (source name : List Char) (start stop line column : Nat) : Prop
  /-- The name is not of the source: part of it is put for a directive call. -/
  | declared (h : MeetsDeclaration (pieces source) start stop)
  /-- The name is not shown as it stands: part of it is a hide call. -/
  | hidden {before after : List Piece}
      (text : pieces source = before ++ (name.map .kept ++ after))
      (starts : byteLength (before.flatMap Piece.written) = start)
      (h : MeetsHidden source (byteLength (before.flatMap Piece.read)) name)
  /-- The name stands on that line. The two columns differ as the two readings of what comes before
  the name on the line do in length. -/
  | copied {before after : List Piece}
      (text : pieces source = before ++ (name.map .kept ++ after))
      (starts : byteLength (before.flatMap Piece.written) = start)
      (place : Nat)
      (shift : column + byteLength ((openLine before).flatMap Piece.read) =
        place + byteLength ((openLine before).flatMap Piece.written))
      (found : StandsAt source name line place)

theorem placed_of_slice {source : List Char} {n : Node} (path : Path)
    (h : n.text (prepare source) ≠ []) :
    Placed source (n.text (prepare source)) n.start n.stop
      (SourceFile.place ⟨path, prepare source⟩ n).line
      (SourceFile.place ⟨path, prepare source⟩ n).column := by
  obtain ⟨a, b, prepared, starts, stops⟩ := slice_spec h
  change _ = a ++ (n.text (prepare source) ++ b) at prepared
  change _ + byteLength (n.text (prepare source)) = _ at stops
  generalize n.text (prepare source) = name at h prepared stops
  have cut := (flatMap_written_pieces source).trans prepared
  rcases copied_or_meets h cut with meets | ⟨before, after, text, rfl⟩
  · rw [starts, stops] at meets
    exact .declared meets
  have oneLine : ∀ p ∈ before, p.OneLine := by
    intro p mem
    apply oneLine_pieces source p
    rw [text]
    exact List.mem_append_left _ mem
  have read : shown source = before.flatMap Piece.read ++ (name ++ after.flatMap Piece.read) := by
    rw [← flatMap_read_pieces, text, List.flatMap_append, List.flatMap_append, flatMap_read_kept]
  rcases shown_or_hidden h (hides_hiddenRanges_iff source) (List.nil_append source).symm read with
    meets | ⟨pre, rest, rfl, spots⟩
  · exact .hidden text starts meets
  have reported := position_append (before.flatMap Piece.written) (name ++ b)
  rw [← prepared, starts, reading_written.spot before oneLine] at reported
  have found := spots.trans (reading_read.spot before oneLine)
  have there := charOffset_spot pre (name ++ rest)
  rw [found] at there
  refine .copied text starts (byteLength ((openLine before).flatMap Piece.read) + 1) ?_
    ⟨pre, rest, rfl, ?_⟩
  · simp only [SourceFile.place, reported]
    omega
  · simp only [SourceFile.place, reported, found, there, and_self]

/-- Of every field and method with a name: where the name stands in the source, if it does. -/
theorem member_positions (path : Path) (source : List Char) (parsed : Children)
    (node : DeclTree.Node)
    (mem : node ∈ (SourceFile.declTree ⟨path, prepare source⟩ parsed).nodes)
    (kind : node.decl.kind = .field ∨ node.decl.kind = .method)
    (spelled : node.decl.spelling ≠ "") :
    ∃ name, SourceFile.NamedBy ⟨path, prepare source⟩ name node.decl ∧
      Placed source node.decl.spelling.toList name.start name.stop node.decl.location.line
        node.decl.location.column := by
  obtain ⟨name, named⟩ := SourceFile.namedBy_of_mem_nodes mem kind
  have text : name.text (prepare source) ≠ [] := by
    intro none
    apply spelled
    rw [named.spelling]
    change String.ofList (name.text (prepare source)) = ""
    rw [none]
  refine ⟨name, named, ?_⟩
  rw [named.spelling, String.toList_ofList, named.location]
  exact placed_of_slice path text

section Box

def boxSource : List Char := "SERIALIZE_STRUCT() struct Box<int> { int v; };".toList

/-- The parse tree of the prepared source, less its punctuation. -/
def boxParsed : Children :=
  .ofTrees [
    (⟨.declaration, true, .plain, 0, 47⟩, .ofTrees [
      (⟨.other, true, .type, 0, 4⟩, .nil),
      (⟨.functionDeclarator, true, .declarator, 5, 46⟩,
        .leaves [⟨.identifier, true, .declarator, 5, 44⟩])]),
    (⟨.record .struct, true, .plain, 48, 74⟩, .ofTrees [
      (⟨.other, true, .name, 55, 63⟩, .nil),
      (⟨.group, true, .body, 64, 74⟩, .ofTrees [
        (⟨.fieldDeclaration, true, .plain, 66, 72⟩, .leaves [
          ⟨.other, true, .type, 66, 69⟩,
          ⟨.identifier, true, .declarator, 70, 71⟩])])])]

def boxMember : DeclTree.Node :=
  ⟨3, ⟨.field, "v", ⟨⟨"/p/a.h"⟩, 1, 71⟩, .plain "int", .publicMember⟩⟩

theorem prepare_boxSource :
    prepare boxSource =
      "void HEARTGEN___SERIALIZE_NEXT_SYMBOL_STRUCT(); struct Box<int> { int v; };".toList := by
  decide +kernel

theorem boxMember_mem :
    boxMember ∈ (SourceFile.declTree ⟨⟨"/p/a.h"⟩, prepare boxSource⟩ boxParsed).nodes := by
  rw [prepare_boxSource]
  decide +kernel

/-- The member is reported past the end of its line, and stands 29 bytes before that. -/
theorem boxMember_misplaced :
    boxMember ∈ (SourceFile.declTree ⟨⟨"/p/a.h"⟩, prepare boxSource⟩ boxParsed).nodes ∧
      Directive.ofMarker? boxMember.decl.spelling = none ∧
      ¬StandsAt boxSource boxMember.decl.spelling.toList boxMember.decl.location.line
        boxMember.decl.location.column ∧
      StandsAt boxSource boxMember.decl.spelling.toList boxMember.decl.location.line
        (boxMember.decl.location.column - 29) := by
  refine ⟨boxMember_mem, by decide, fun h => absurd h.prefix_drop (by decide), ?_⟩
  exact ⟨boxSource.take 41, boxSource.drop 42, by decide, by decide, by decide, by decide⟩

theorem boxMember_position :
    boxMember.decl.kind = .field ∧ boxMember.decl.spelling ≠ "" ∧
      ∃ name, SourceFile.NamedBy ⟨⟨"/p/a.h"⟩, prepare boxSource⟩ name boxMember.decl ∧
        Placed boxSource boxMember.decl.spelling.toList name.start name.stop
          boxMember.decl.location.line boxMember.decl.location.column :=
  ⟨rfl, by decide, member_positions ⟨"/p/a.h"⟩ boxSource boxParsed boxMember boxMember_mem
    (.inl rfl) (by decide)⟩

end Box

end ReflectGen.Parse

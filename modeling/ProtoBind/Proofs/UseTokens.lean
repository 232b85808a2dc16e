import Mathlib.Data.List.Forall2
import ProtoBind.Proofs.SpelledTokens
import ProtoBind.Source.Imports
import ProtoBind.Source.Parser.Pat

/-!
# Items of use from their tokens

An item of use that the parser gives is made of sound tokens, so that their text tells it from all others.
-/

set_option autoImplicit false

namespace ProtoBind.Source

/-! ## Sound tokens in a row -/

theorem AllSound.nil : AllSound [] := trivial

theorem AllSound.cons {token : Token} {rest : List Token} (hToken : token.Sound) (hJoined : token.isJoined = false)
    (hRest : AllSound rest) : AllSound (token :: rest) :=
  ⟨hToken, joinsTo_of_not_joined hJoined rest, hRest⟩

theorem AllSound.mark {c : Char} {rest : List Token} (hMark : c ∈ markChars) (hQuote : c ≠ '\x27')
    (hRest : AllSound rest) : AllSound (.mark c false :: rest) :=
  .cons ⟨hMark, fun hEq => absurd hEq hQuote⟩ rfl hRest

theorem AllSound.pathMark {rest : List Token} (hRest : AllSound rest) : AllSound (pathMark ++ rest) := by
  refine ⟨⟨by decide, fun _ => rfl⟩, fun hQuote => absurd hQuote (by decide), ?_⟩
  exact .mark (by decide) (by decide) hRest

/-! ## Paths -/

def nameTokens (names : List String) : List Token :=
  (List.intersperse pathMark (names.map fun name => [.word name])).flatten

def endsPath : List Token → Bool
  | [] => true
  | .group _ _ :: _ => true
  | .mark c _ :: _ => c != ':'
  | _ => false

theorem nameTokens_cons (name : String) (names : List String) :
    nameTokens (name :: names) = .word name :: if names.isEmpty then [] else pathMark ++ nameTokens names := by
  cases names <;> simp [nameTokens]

theorem nameTokens_sound {names : List String} (h : ∀ name ∈ names, (Token.word name).Sound) {rest : List Token}
    (hRest : AllSound rest) : AllSound (nameTokens names ++ rest) := by
  induction names with
  | nil => exact hRest
  | cons name names ih =>
    obtain ⟨hName, hNames⟩ := List.forall_mem_cons.mp h
    rw [nameTokens_cons, List.cons_append]
    refine .cons hName rfl ?_
    split
    · exact hRest
    · rw [List.append_assoc]
      exact .pathMark (ih hNames)

theorem nameTokens_injective {names names' : List String} {rest rest' : List Token} (hRest : endsPath rest = true)
    (hRest' : endsPath rest' = true) (h : nameTokens names ++ rest = nameTokens names' ++ rest') :
    names = names' ∧ rest = rest' := by
  induction names generalizing names' with
  | nil =>
    cases names' with
    | nil => exact ⟨rfl, h⟩
    | cons name' names' =>
      rw [nameTokens_cons] at h
      rw [show rest = _ from h] at hRest
      cases hRest
  | cons name names ih =>
    cases names' with
    | nil =>
      rw [nameTokens_cons] at h
      rw [show rest' = _ from h.symm] at hRest'
      cases hRest'
    | cons name' names' =>
      rw [nameTokens_cons, nameTokens_cons, List.cons_append, List.cons_append] at h
      obtain ⟨hName, hTail⟩ := List.cons_eq_cons.mp h
      cases hName
      cases names with
      | nil =>
        cases names' with
        | nil => exact ⟨rfl, hTail⟩
        | cons next' names' =>
          rw [show rest = _ from hTail] at hRest
          cases hRest
      | cons next names =>
        cases names' with
        | nil =>
          rw [show rest' = _ from hTail.symm] at hRest'
          cases hRest'
        | cons next' names' =>
          obtain ⟨hNames, hSame⟩ := ih (List.append_cancel_left ((List.append_assoc ..).symm.trans
            (hTail.trans (List.append_assoc ..))))
          exact ⟨congrArg (name :: ·) hNames, hSame⟩

def Path.Plain : Path → Prop
  | .mk _ segments =>
    ∃ names : List String, segments = names.map (Segment.mk · .none) ∧ ∀ name ∈ names, (Token.word name).Sound

theorem plainTokens_eq (rooted : Bool) (names : List String) :
    (Path.mk rooted (names.map (Segment.mk · .none))).plainTokens
      = (if rooted then pathMark else []) ++ nameTokens names := by
  rw [Path.plainTokens, nameTokens, List.map_map]
  rfl

theorem plainTokens_sound {path : Path} (h : path.Plain) {rest : List Token} (hRest : AllSound rest) :
    AllSound (path.plainTokens ++ rest) := by
  obtain ⟨rooted, segments⟩ := path
  obtain ⟨names, rfl, hNames⟩ := h
  rw [plainTokens_eq, List.append_assoc]
  cases rooted with
  | false => exact nameTokens_sound hNames hRest
  | true => exact .pathMark (nameTokens_sound hNames hRest)

theorem nameTokens_ne_mark (names : List String) {rest : List Token} (hRest : endsPath rest = true)
    (more : List Token) :
    nameTokens names ++ rest ≠ pathMark ++ more := by
  intro h
  cases names with
  | nil =>
    rw [show rest = _ from h] at hRest
    cases hRest
  | cons name names =>
    rw [nameTokens_cons] at h
    cases h

theorem plainTokens_injective {path path' : Path} (hPath : path.Plain) (hPath' : path'.Plain) {rest rest' : List Token}
    (hRest : endsPath rest = true) (hRest' : endsPath rest' = true)
    (h : path.plainTokens ++ rest = path'.plainTokens ++ rest') : path = path' ∧ rest = rest' := by
  obtain ⟨rooted, segments⟩ := path
  obtain ⟨rooted', segments'⟩ := path'
  obtain ⟨names, rfl, -⟩ := hPath
  obtain ⟨names', rfl, -⟩ := hPath'
  rw [plainTokens_eq, plainTokens_eq, List.append_assoc, List.append_assoc] at h
  cases rooted with
  | false =>
    cases rooted' with
    | false =>
      obtain ⟨rfl, rfl⟩ := nameTokens_injective hRest hRest' h
      exact ⟨rfl, rfl⟩
    | true => exact absurd h (nameTokens_ne_mark names hRest _)
  | true =>
    cases rooted' with
    | false => exact absurd h.symm (nameTokens_ne_mark names' hRest' _)
    | true =>
      obtain ⟨rfl, rfl⟩ := nameTokens_injective hRest hRest' (List.append_cancel_left h)
      exact ⟨rfl, rfl⟩

/-! ## Trees of use -/

mutual

def UseTree.Proper : UseTree → Prop
  | .path n tree => (Token.word n).Sound ∧ tree.Proper
  | .name n => (Token.word n).Sound
  | .rename n other => (Token.word n).Sound ∧ (Token.word other).Sound
  | .glob => True
  | .group trees ended => (trees = [] → ended = false) ∧ UseTree.AllProper trees

def UseTree.AllProper : List UseTree → Prop
  | [] => True
  | tree :: rest => tree.Proper ∧ UseTree.AllProper rest

end

def groupTail (ended : Bool) : List UseTree → List Token
  | [] => if ended then [.mark ',' false] else []
  | next :: rest => .mark ',' false :: UseTree.groupTokens ended (next :: rest)

theorem groupTokens_cons (ended : Bool) (tree : UseTree) (rest : List UseTree) :
    UseTree.groupTokens ended (tree :: rest) = tree.tokens ++ groupTail ended rest := by
  cases rest <;> simp [UseTree.groupTokens, groupTail]

mutual

theorem treeTokens_sound : (tree : UseTree) → tree.Proper → ∀ {rest : List Token}, AllSound rest →
    AllSound (tree.tokens ++ rest)
  | .path name tree, h, rest, hRest => by
    rw [UseTree.tokens, List.append_assoc, List.cons_append]
    exact .cons h.1 rfl (.pathMark (treeTokens_sound tree h.2 hRest))
  | .name name, h, rest, hRest => .cons h rfl hRest
  | .rename name other, h, rest, hRest =>
    .cons h.1 rfl (.cons (identifierText_of_name (by decide)) rfl (.cons h.2 rfl hRest))
  | .glob, _, rest, hRest => .mark (by decide) (by decide) hRest
  | .group trees ended, h, rest, hRest => .cons (groupTokens_sound ended trees h.2) rfl hRest

theorem groupTokens_sound (ended : Bool) : (trees : List UseTree) → UseTree.AllProper trees →
    AllSound (UseTree.groupTokens ended trees)
  | [], _ => trivial
  | tree :: rest, h => by
    rw [groupTokens_cons]
    refine treeTokens_sound tree h.1 ?_
    cases rest with
    | nil =>
      cases ended with
      | false => trivial
      | true => exact .mark (by decide) (by decide) trivial
    | cons next rest => exact .mark (by decide) (by decide) (groupTokens_sound ended (next :: rest) h.2)

end

def endsTree : List Token → Bool
  | [] => true
  | .mark c _ :: _ => c == ',' || c == ';'
  | _ => false

theorem treeTokens_ne_nil (tree : UseTree) : tree.tokens ≠ [] := by
  cases tree <;> simp [UseTree.tokens]

theorem groupTokens_ne_nil (ended : Bool) (tree : UseTree) (rest : List UseTree) :
    UseTree.groupTokens ended (tree :: rest) ≠ [] := by
  simp [groupTokens_cons, treeTokens_ne_nil]

theorem endsTree_groupTail (ended : Bool) (rest : List UseTree) : endsTree (groupTail ended rest) = true := by
  cases rest <;> cases ended <;> rfl

mutual

/-- A tree is known from its tokens and what stands behind them. -/
theorem treeTokens_injective : (tree tree' : UseTree) → tree.Proper → tree'.Proper → ∀ {rest rest' : List Token},
    endsTree rest = true → endsTree rest' = true → tree.tokens ++ rest = tree'.tokens ++ rest' →
    tree = tree' ∧ rest = rest'
  | .path name tree, tree', h, h', rest, rest', hRest, hRest', hSame => by
    cases tree' with
    | path name' tree' =>
      rw [UseTree.tokens, UseTree.tokens, List.append_assoc, List.append_assoc] at hSame
      obtain ⟨hName, hTail⟩ := List.cons_eq_cons.mp hSame
      cases hName
      obtain ⟨rfl, hBehind⟩ := treeTokens_injective tree tree' h.2 h'.2 hRest hRest' (List.append_cancel_left hTail)
      exact ⟨rfl, hBehind⟩
    | name name' =>
      rw [show rest' = _ from (List.cons_eq_cons.mp hSame).2.symm] at hRest'
      cases hRest'
    | rename name' other' => cases (List.cons_eq_cons.mp hSame).2
    | glob => cases hSame
    | group trees' ended' => cases hSame
  | .name name, tree', h, h', rest, rest', hRest, hRest', hSame => by
    cases tree' with
    | path name' tree' =>
      rw [show rest = _ from (List.cons_eq_cons.mp hSame).2] at hRest
      cases hRest
    | name name' =>
      obtain ⟨hName, hTail⟩ := List.cons_eq_cons.mp hSame
      cases hName
      exact ⟨rfl, hTail⟩
    | rename name' other' =>
      rw [show rest = _ from (List.cons_eq_cons.mp hSame).2] at hRest
      cases hRest
    | glob => cases hSame
    | group trees' ended' => cases hSame
  | .rename name other, tree', h, h', rest, rest', hRest, hRest', hSame => by
    cases tree' with
    | path name' tree' => cases (List.cons_eq_cons.mp hSame).2
    | name name' =>
      rw [show rest' = _ from (List.cons_eq_cons.mp hSame).2.symm] at hRest'
      cases hRest'
    | rename name' other' =>
      cases hSame
      exact ⟨rfl, rfl⟩
    | glob => cases hSame
    | group trees' ended' => cases hSame
  | .glob, tree', h, h', rest, rest', hRest, hRest', hSame => by
    cases tree' with
    | glob => exact ⟨rfl, (List.cons_eq_cons.mp hSame).2⟩
    | _ => cases hSame
  | .group trees ended, tree', h, h', rest, rest', hRest, hRest', hSame => by
    cases tree' with
    | group trees' ended' =>
      obtain ⟨hGroup, hTail⟩ := List.cons_eq_cons.mp hSame
      obtain ⟨rfl, hEnded⟩ := groupTokens_injective ended ended' trees trees' h.2 h'.2 (Token.group.inj hGroup).2
      refine ⟨?_, hTail⟩
      -- An empty group is not ended, so that nothing is lost with the trees.
      by_cases hNil : trees = []
      · rw [h.1 hNil, h'.1 hNil]
      · rw [hEnded hNil]
    | _ => cases hSame

theorem groupTokens_injective (ended ended' : Bool) : (trees trees' : List UseTree) → UseTree.AllProper trees →
    UseTree.AllProper trees' → UseTree.groupTokens ended trees = UseTree.groupTokens ended' trees' →
    trees = trees' ∧ (trees ≠ [] → ended = ended')
  | [], [], _, _, _ => ⟨rfl, fun hNe => absurd rfl hNe⟩
  | [], tree' :: rest', _, _, hSame => absurd hSame.symm (groupTokens_ne_nil ended' tree' rest')
  | tree :: rest, [], _, _, hSame => absurd hSame (groupTokens_ne_nil ended tree rest)
  | tree :: rest, tree' :: rest', h, h', hSame => by
    rw [groupTokens_cons, groupTokens_cons] at hSame
    obtain ⟨rfl, hTail⟩ := treeTokens_injective tree tree' h.1 h'.1 (endsTree_groupTail ended rest)
      (endsTree_groupTail ended' rest') hSame
    cases rest with
    | nil =>
      cases rest' with
      | nil =>
        refine ⟨rfl, fun _ => ?_⟩
        cases ended <;> cases ended' <;> simp [groupTail] at hTail <;> rfl
      | cons next' rest' =>
        have hNe := groupTokens_ne_nil ended' next' rest'
        cases ended <;> simp [groupTail] at hTail
        exact absurd hTail hNe
    | cons next rest =>
      cases rest' with
      | nil =>
        have hNe := groupTokens_ne_nil ended next rest
        cases ended' <;> simp [groupTail] at hTail
        exact absurd hTail hNe
      | cons next' rest' =>
        obtain ⟨hRest, hEnded⟩ := groupTokens_injective ended ended' (next :: rest) (next' :: rest') h.2 h'.2
          (List.cons_eq_cons.mp hTail).2
        exact ⟨congrArg (tree :: ·) hRest, fun _ => hEnded (by simp)⟩

end

/-! ## Attributes -/

/-- The token that the value of an attribute was read from: two values are words. -/
def valueToken (text : String) : Token := if Parser.truthWords.contains text then .word text else .literal text

def Attribute.lexed (a : Attribute) : List Token :=
  [.mark '#' false, .group .bracket (match a with
    | .path p => p.plainTokens
    | .list p delimiter inner => p.plainTokens ++ [.group delimiter inner]
    | .value p text => p.plainTokens ++ [.mark '=' false, valueToken text])]

/-- The tokens that an item of use without a visibility was read from. -/
def UseItem.lexed (item : UseItem) : List Token :=
  item.attributes.flatMap Attribute.lexed ++ .word "use" :: (if item.rooted then pathMark else [])
    ++ item.tree.tokens ++ [.mark ';' false]

def Attribute.Proper : Attribute → Prop
  | .path p => p.Plain
  | .list p _ inner => p.Plain ∧ AllSound inner
  | .value p text => p.Plain ∧ (valueToken text).Sound

structure UseItem.Proper (item : UseItem) : Prop where
  attributes : ∀ a ∈ item.attributes, a.Proper
  tree : item.tree.Proper

theorem valueToken_spell (text : String) : (valueToken text).spell = text ∧ (valueToken text).isJoined = false := by
  unfold valueToken
  split <;> exact ⟨rfl, rfl⟩

theorem valueToken_injective {text text' : String} (h : valueToken text = valueToken text') : text = text' := by
  rw [← (valueToken_spell text).1, h, (valueToken_spell text').1]

/-- Whether two tokens are spelled alike and joined alike to the next one. -/
def Token.Alike (token token' : Token) : Prop := token.spell = token'.spell ∧ token.isJoined = token'.isJoined

theorem spellAll_congr {tokens tokens' : List Token} (h : List.Forall₂ Token.Alike tokens tokens') :
    spellAll tokens = spellAll tokens' := by
  induction h with
  | nil => rfl
  | @cons token token' rest rest' hToken hRest ih =>
    have hEmpty : rest.isEmpty = rest'.isEmpty := by cases hRest <;> rfl
    have hCons := spellAll_cons token rest []
    have hCons' := spellAll_cons token' rest' []
    rw [List.append_nil] at hCons hCons'
    apply String.toList_injective
    rw [hCons, hCons', hToken.1, spelledBehind, spelledBehind, gapBehind, gapBehind, hToken.2, hEmpty, ih]

theorem alike_refl (tokens : List Token) : List.Forall₂ Token.Alike tokens tokens :=
  List.forall₂_same.mpr fun _ _ => ⟨rfl, rfl⟩

theorem lexed_alike (a : Attribute) : List.Forall₂ Token.Alike a.lexed a.tokens := by
  refine .cons ⟨rfl, rfl⟩ (.cons ⟨?_, rfl⟩ .nil)
  cases a with
  | path p => rfl
  | list p delimiter inner => rfl
  | value p text =>
    have hValue : List.Forall₂ Token.Alike [.mark '=' false, valueToken text] [.mark '=' false, .literal text] :=
      .cons ⟨rfl, rfl⟩ (.cons (valueToken_spell text) .nil)
    have hInner := List.rel_append (alike_refl p.plainTokens) hValue
    dsimp only
    rw [Token.spell, Token.spell, spellAll_congr hInner]
    simp [Delimiter.closing]

/-- The text of an item is how the tokens that it was read from are spelled. -/
theorem spellAll_lexed (item : UseItem) : spellAll item.lexed = item.tokenText := by
  apply spellAll_congr
  have hAttributes : List.Forall₂ Token.Alike (item.attributes.flatMap Attribute.lexed)
      (item.attributes.flatMap Attribute.tokens) := by
    induction item.attributes with
    | nil => exact .nil
    | cons a rest ih => exact List.rel_append (lexed_alike a) ih
  rw [UseItem.lexed, UseItem.tokens]
  have hRest := alike_refl (.word "use" :: (if item.rooted then pathMark else []) ++ item.tree.tokens
      ++ [.mark ';' false])
  have hAll := List.rel_append hAttributes hRest
  simpa using hAll

theorem attributeTokens_sound {a : Attribute} (h : a.Proper) {rest : List Token} (hRest : AllSound rest) :
    AllSound (a.lexed ++ rest) := by
  refine .mark (by decide) (by decide) (.cons ?_ rfl hRest)
  cases a with
  | path p =>
    have hPath := plainTokens_sound h .nil
    rwa [List.append_nil] at hPath
  | list p delimiter inner => exact plainTokens_sound h.1 (.cons h.2 rfl trivial)
  | value p text =>
    exact plainTokens_sound h.1 (.mark (by decide) (by decide) (.cons h.2 (valueToken_spell text).2 trivial))

theorem attributeTokens_injective {a a' : Attribute} (h : a.Proper) (h' : a'.Proper) {rest rest' : List Token}
    (hSame : a.lexed ++ rest = a'.lexed ++ rest') : a = a' ∧ rest = rest' := by
  obtain ⟨hGroup, hRest⟩ := List.cons_eq_cons.mp (List.cons_eq_cons.mp hSame).2
  refine ⟨?_, hRest⟩
  have hInner := (Token.group.inj hGroup).2
  -- What the tokens are behind the path tells what the attribute says.
  cases a with
  | path p =>
    cases a' with
    | path p' =>
      obtain ⟨rfl, -⟩ := plainTokens_injective h h' rfl rfl (congrArg (· ++ []) hInner)
      rfl
    | list p' delimiter' inner' => cases (plainTokens_injective h h'.1 rfl rfl ((List.append_nil _).trans hInner)).2
    | value p' text' => cases (plainTokens_injective h h'.1 rfl rfl ((List.append_nil _).trans hInner)).2
  | list p delimiter inner =>
    cases a' with
    | path p' => cases (plainTokens_injective h.1 h' rfl rfl (hInner.trans (List.append_nil _).symm)).2
    | list p' delimiter' inner' =>
      obtain ⟨rfl, hTail⟩ := plainTokens_injective h.1 h'.1 rfl rfl hInner
      cases hTail
      rfl
    | value p' text' => cases (plainTokens_injective h.1 h'.1 rfl rfl hInner).2
  | value p text =>
    cases a' with
    | path p' => cases (plainTokens_injective h.1 h' rfl rfl (hInner.trans (List.append_nil _).symm)).2
    | list p' delimiter' inner' => cases (plainTokens_injective h.1 h'.1 rfl rfl hInner).2
    | value p' text' =>
      obtain ⟨rfl, hTail⟩ := plainTokens_injective h.1 h'.1 rfl rfl hInner
      obtain rfl := valueToken_injective (List.cons_eq_cons.mp (List.cons_eq_cons.mp hTail).2).1
      rfl

/-! ## Items -/

theorem UseItem.Proper.sound {item : UseItem} (h : item.Proper) : AllSound item.lexed := by
  have hAttributes : ∀ {attributes : List Attribute} {rest : List Token}, (∀ a ∈ attributes, a.Proper) →
      AllSound rest → AllSound (attributes.flatMap Attribute.lexed ++ rest) := by
    intro attributes rest hAll hRest
    induction attributes with
    | nil => exact hRest
    | cons a attributes ih =>
      obtain ⟨hA, hAll⟩ := List.forall_mem_cons.mp hAll
      rw [List.flatMap_cons, List.append_assoc]
      exact attributeTokens_sound hA (ih hAll)
  have hTree := treeTokens_sound item.tree h.tree (.mark (by decide : ';' ∈ markChars) (by decide) .nil)
  rw [UseItem.lexed, List.append_assoc, List.append_assoc]
  refine hAttributes h.attributes (.cons (identifierText_of_name (by decide)) rfl ?_)
  cases item.rooted with
  | false => exact hTree
  | true => exact .pathMark hTree

theorem attributes_injective {attributes attributes' : List Attribute} (h : ∀ a ∈ attributes, a.Proper)
    (h' : ∀ a ∈ attributes', a.Proper) {name name' : String} {rest rest' : List Token}
    (hSame : attributes.flatMap Attribute.lexed ++ .word name :: rest
      = attributes'.flatMap Attribute.lexed ++ .word name' :: rest') :
    attributes = attributes' ∧ rest = rest' := by
  induction attributes generalizing attributes' with
  | nil =>
    cases attributes' with
    | nil => exact ⟨rfl, (List.cons_eq_cons.mp hSame).2⟩
    | cons a' attributes' => cases (List.cons_eq_cons.mp hSame).1
  | cons a attributes ih =>
    cases attributes' with
    | nil => cases (List.cons_eq_cons.mp hSame).1
    | cons a' attributes' =>
      obtain ⟨hA, hAll⟩ := List.forall_mem_cons.mp h
      obtain ⟨hA', hAll'⟩ := List.forall_mem_cons.mp h'
      rw [List.flatMap_cons, List.flatMap_cons, List.append_assoc, List.append_assoc] at hSame
      obtain ⟨rfl, hTail⟩ := attributeTokens_injective hA hA' hSame
      obtain ⟨rfl, hRest⟩ := ih hAll hAll' hTail
      exact ⟨rfl, hRest⟩

theorem treeTokens_ne_mark (tree : UseTree) (rest more : List Token) : tree.tokens ++ rest ≠ pathMark ++ more := by
  cases tree <;> simp [UseTree.tokens, pathMark]

/-- An item of use without a visibility is known from its tokens. -/
theorem tokenText_injective {item item' : UseItem} (h : item.Proper) (h' : item'.Proper)
    (hPrivate : item.visibility = .inherited) (hPrivate' : item'.visibility = .inherited)
    (hSame : item.tokenText = item'.tokenText) : item = item' := by
  have hText : (spellAll item.lexed).toList ++ [] = (spellAll item'.lexed).toList ++ [] := by
    rw [spellAll_lexed, spellAll_lexed, hSame]
  obtain ⟨hTokens, -⟩ := told_of_sound h.sound h'.sound rfl rfl hText
  obtain ⟨attributes, visibility, rooted, tree⟩ := item
  obtain ⟨attributes', visibility', rooted', tree'⟩ := item'
  obtain rfl : visibility = .inherited := hPrivate
  obtain rfl : visibility' = .inherited := hPrivate'
  rw [UseItem.lexed, UseItem.lexed, List.append_assoc, List.append_assoc, List.append_assoc,
      List.append_assoc] at hTokens
  obtain ⟨rfl, hTail⟩ := attributes_injective h.attributes h'.attributes hTokens
  have hTrees : rooted = rooted' ∧ tree.tokens ++ [.mark ';' false] = tree'.tokens ++ [.mark ';' false] := by
    cases rooted with
    | false =>
      cases rooted' with
      | false => exact ⟨rfl, hTail⟩
      | true => exact absurd hTail (treeTokens_ne_mark tree _ _)
    | true =>
      cases rooted' with
      | false => exact absurd hTail.symm (treeTokens_ne_mark tree' _ _)
      | true => exact ⟨rfl, List.append_cancel_left hTail⟩
  obtain ⟨rfl, hTrees⟩ := hTrees
  obtain ⟨rfl, -⟩ := treeTokens_injective tree tree' h.tree h'.tree rfl rfl hTrees
  rfl

end ProtoBind.Source

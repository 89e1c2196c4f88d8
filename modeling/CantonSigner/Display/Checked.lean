import CantonSigner.Display.Screens
import CantonSigner.Hash.Named

/-!
# The display walk with its comparisons of pointers

The decoder leaves a NULL pointer for a string that a message does not have, and `strcmp` must
not be handed one. `Checked` is a computation that ends at such a comparison. The walk is written
once more with each comparison as it stands in the source; all other strings that it reads are
bytes already, in the model and after the decoder: those of a matched value, a stored field or
the tables. Where every record id is named, the two walks agree.
-/

namespace CantonSigner

open ByteCodec

/-! ## Comparing through pointers -/

/-- The result of code that compares strings through pointers, `none` if it hands a NULL to
`strcmp`. -/
abbrev Checked (α : Type) := Option α

namespace Checked

/-- `strcmp(s, t) == 0`. -/
def strcmpEq : Option Bytes → Option Bytes → Checked Bool
  | some s, some t => some (s == t)
  | _, _ => none

/-- `x && y`. -/
def both (x y : Checked Bool) : Checked Bool := x.bind fun b => if b then y else some false

/-- A loop that returns at the first hit. -/
def firstOf {α : Type} (p : α → Checked Bool) : List α → Checked (Option α)
  | [] => some none
  | a :: l => (p a).bind fun b => if b then some (some a) else firstOf p l

/-- Go on with what was decoded. -/
def andThen {α β : Type} (x : Checked (Option α)) (f : α → Checked (Option β)) :
    Checked (Option β) := x.bind fun o => o.elim (some none) f

/-- Call back for each occurrence. -/
def forEach {σ α : Type} (f : σ → α → Checked (Option σ)) : σ → List α → Checked (Option σ)
  | s, [] => some (some s)
  | s, a :: l => andThen (f s a) fun s => forEach f s l

variable {α β σ : Type}

theorem both_some (a b : Bool) : both (some a) (some b) = some (a && b) := by
  cases a <;> rfl

theorem firstOf_eq {p : α → Checked Bool} {q : α → Bool} {l : List α}
    (h : ∀ a, p a = some (q a)) : firstOf p l = some (l.find? q) := by
  induction l with
  | nil => rfl
  | cons a l ih =>
    rw [firstOf, h, List.find?_cons, Option.bind_some]
    cases q a with
    | true => rfl
    | false => exact ih

theorem andThen_some {o : Option α} {f : α → Checked (Option β)} {g : α → Option β}
    (h : ∀ a, f a = some (g a)) : andThen (some o) f = some (o.bind g) := by
  cases o with
  | none => rfl
  | some a => exact h a

theorem forEach_eq {f : σ → α → Checked (Option σ)} {g : σ → α → Option σ} {l : List α}
    (h : ∀ a ∈ l, ∀ s, f s a = some (g s a)) (s : σ) : forEach f s l = some (l.foldlM g s) := by
  induction l generalizing s with
  | nil => rfl
  | cons a l ih =>
    rw [forEach, h a List.mem_cons_self, List.foldlM_cons]
    exact andThen_some fun s => ih (fun a ha => h a (List.mem_cons_of_mem _ ha)) s

end Checked

namespace DisplayParser

namespace Checked

open CantonSigner.Checked

/-! ## The display pass -/

/-- `is_node_template`, which tests its strings. -/
def isNodeTemplate (s : Ctx) (moduleName entityName : Option Bytes) : Checked Bool :=
  if moduleName.isNone || entityName.isNone || s.nodeModule.isNone || s.nodeEntity.isNone then
    some false
  else both (strcmpEq moduleName s.nodeModule) (strcmpEq entityName s.nodeEntity)

/-- `config_matches_node_action` (pb_node_display_parser.c:497–525). -/
def configMatchesNodeAction (s : Ctx) (c : DisplayConfig) (id : Identifier) : Checked Bool :=
  if s.nodeChoiceId.isNone then isNodeTemplate s id.moduleName id.entityName
  else
    (firstOf (fun n => isNodeTemplate s (some n.moduleName) (some n.entityName))
      c.nodeIdentifiers).bind fun n =>
        if n.isNone || id.entityName.isNone then some false
        else strcmpEq id.entityName s.nodeChoiceId

/-- `match_identifier`, which does not. -/
def matchIdentifier (id : Identifier) (c : IdentifierConfig) : Checked Bool :=
  both (strcmpEq id.moduleName (some c.moduleName)) (strcmpEq id.entityName (some c.entityName))

/-- The table search of `find_tx_type_and_config`. -/
def findInTable (s : Ctx) (id : Identifier) : Checked Ctx :=
  (firstOf (fun c => both (matchIdentifier id c.identifier) (configMatchesNodeAction s c id))
    displayConfigs).map fun
      | none => s
      | some c =>
        if c.metadataContractIdentifiers.isEmpty then setDisplayConfig s c
        else { s with globals := some ⟨c, s.lastParsedContractId⟩ }

/-- `find_tx_type_and_config` (pb_node_display_parser.c:538–587). -/
def findTxTypeAndConfig (s : Ctx) (id : Identifier) : Checked Ctx :=
  if s.fields.isSome then some s
  else
    match s.globals with
    | none => findInTable s id
    | some g =>
      let contractIdMatches :=
        if s.lastParsedContractId.isNone || g.expectedContractId.isNone then some false
        else strcmpEq s.lastParsedContractId g.expectedContractId
      contractIdMatches.bind fun matches' =>
        (firstOf (fun c => both (both (matchIdentifier id c) (some matches'))
          (isNodeTemplate s id.moduleName id.entityName))
          g.conf.metadataContractIdentifiers).bind fun
            | none => findInTable s id
            | some _ => some (setDisplayConfig s g.conf)

variable {s : Ctx} {id : Identifier}

theorem isNodeTemplate_eq (s : Ctx) (moduleName entityName : Option Bytes) :
    isNodeTemplate s moduleName entityName =
      some (DisplayParser.isNodeTemplate s moduleName entityName) := by
  unfold isNodeTemplate DisplayParser.isNodeTemplate
  cases hm : s.nodeModule with
  | none => cases moduleName <;> simp
  | some nodeModule =>
    cases he : s.nodeEntity with
    | none => cases moduleName <;> cases entityName <;> simp
    | some nodeEntity =>
      cases moduleName with
      | none => rfl
      | some m =>
        cases entityName with
        | none => rfl
        | some e =>
          have hm' : (some nodeModule == some m) = (m == nodeModule) := Bool.beq_comm
          have he' : (some nodeEntity == some e) = (e == nodeEntity) := Bool.beq_comm
          rw [hm', he']
          exact both_some _ _

theorem configMatchesNodeAction_eq (s : Ctx) (c : DisplayConfig) (id : Identifier) :
    configMatchesNodeAction s c id = some (DisplayParser.configMatchesNodeAction s c id) := by
  unfold configMatchesNodeAction DisplayParser.configMatchesNodeAction
  cases hchoice : s.nodeChoiceId with
  | none => exact isNodeTemplate_eq s _ _
  | some choice =>
    have htemplate : ∀ n : IdentifierConfig, isNodeTemplate s (some n.moduleName)
        (some n.entityName) = some (DisplayParser.isNodeTemplate s (some n.moduleName)
          (some n.entityName)) := fun n => isNodeTemplate_eq s _ _
    dsimp only
    rw [if_neg (by simp), firstOf_eq htemplate, Option.bind_some, ← List.isSome_find?]
    cases List.find? (fun n : IdentifierConfig =>
        DisplayParser.isNodeTemplate s (some n.moduleName) (some n.entityName))
        c.nodeIdentifiers with
    | none => rfl
    | some n =>
      cases id.entityName with
      | none => rfl
      | some e => rfl

/-- Names that are present are compared. -/
theorem matchIdentifier_eq (h : id.Named) (c : IdentifierConfig) :
    matchIdentifier id c = some (DisplayParser.matchIdentifier id c) := by
  obtain ⟨m, hm⟩ := Option.isSome_iff_exists.mp h.1
  obtain ⟨e, he⟩ := Option.isSome_iff_exists.mp h.2
  unfold matchIdentifier DisplayParser.matchIdentifier
  rw [hm, he]
  exact both_some _ _

theorem findInTable_eq (h : id.Named) (s : Ctx) :
    findInTable s id = some (DisplayParser.findInTable s id) := by
  have hentry : ∀ c : DisplayConfig,
      both (matchIdentifier id c.identifier) (configMatchesNodeAction s c id) =
        some (DisplayParser.matchIdentifier id c.identifier &&
          DisplayParser.configMatchesNodeAction s c id) := by
    intro c
    rw [matchIdentifier_eq h, configMatchesNodeAction_eq, both_some]
  unfold findInTable DisplayParser.findInTable
  rw [firstOf_eq hentry]
  rfl

theorem findTxTypeAndConfig_eq (h : id.Named) (s : Ctx) :
    findTxTypeAndConfig s id = some (DisplayParser.findTxTypeAndConfig s id) := by
  unfold findTxTypeAndConfig DisplayParser.findTxTypeAndConfig
  split
  · rfl
  · cases hg : s.globals with
    | none => exact findInTable_eq h s
    | some g =>
      have hcontract : (if s.lastParsedContractId.isNone || g.expectedContractId.isNone then
            some false else strcmpEq s.lastParsedContractId g.expectedContractId) =
          some (s.lastParsedContractId.isSome &&
            s.lastParsedContractId == g.expectedContractId) := by
        cases s.lastParsedContractId <;> cases g.expectedContractId <;> rfl
      have hentry : ∀ (b : Bool) (c : IdentifierConfig),
          both (both (matchIdentifier id c) (some b))
              (isNodeTemplate s id.moduleName id.entityName) =
            some (DisplayParser.matchIdentifier id c && b &&
              DisplayParser.isNodeTemplate s id.moduleName id.entityName) := by
        intro b c
        rw [matchIdentifier_eq h, isNodeTemplate_eq, both_some, both_some]
      have hany : ∀ (b t : Bool) (l : List IdentifierConfig),
          (l.find? fun c => DisplayParser.matchIdentifier id c && b && t).isSome =
            (l.any (DisplayParser.matchIdentifier id) && b && t) := by
        intro b t l
        rw [List.isSome_find?]
        cases b <;> cases t <;> simp
      dsimp only
      rw [hcontract, Option.bind_some, firstOf_eq (hentry _), Option.bind_some]
      unfold deferredMatches
      rw [← hany]
      cases List.find? (fun c => DisplayParser.matchIdentifier id c &&
          (s.lastParsedContractId.isSome && s.lastParsedContractId == g.expectedContractId) &&
          DisplayParser.isNodeTemplate s id.moduleName id.entityName)
          g.conf.metadataContractIdentifiers with
      | none => exact findInTable_eq h s
      | some c => rfl

section Walk

variable (d : Device)

mutual

/-- `decode_value_variant` over the occurrences of a value. -/
def walkValue (stack : List Frame) : Value → Ctx → Checked (Option Ctx)
  | .nil, s => some (some s)
  | .prim _ rest, s => walkValue stack rest s
  | .record r rest, s =>
    let s := { s with valuesOpened := s.valuesOpened + 1, recordDepth := s.recordDepth + 1 }
    andThen (walkRecord (.record :: stack) r s) fun s =>
      walkValue stack rest { s with recordDepth := s.recordDepth - 1 }
  | .optional vs rest, s =>
    andThen (walkElems (.optional :: stack) vs { s with valuesOpened := s.valuesOpened + 1 })
      fun s =>
      walkValue stack rest s
  | .textMap m rest, s =>
    andThen (walkTextMap (.textMap :: stack) m { s with valuesOpened := s.valuesOpened + 1 })
      fun s =>
      walkValue stack rest s
  | .unit rest, s => walkValue stack rest { s with valuesOpened := s.valuesOpened + 1 }
  | .list _ rest, s => walkValue stack rest { s with valuesOpened := s.valuesOpened + 1 }
  | .genMap _ rest, s => walkValue stack rest { s with valuesOpened := s.valuesOpened + 1 }
  | .variant _ rest, s => walkValue stack rest { s with valuesOpened := s.valuesOpened + 1 }
  | .enum _ rest, s => walkValue stack rest { s with valuesOpened := s.valuesOpened + 1 }

/-- `decode_value` on each occurrence. -/
def walkElems (stack : List Frame) : Values → Ctx → Checked (Option Ctx)
  | .nil, s => some (some s)
  | .cons v rest, s =>
    if !d.stackHasRoom stack then some none
    else andThen (walkValue stack v s) fun s => walkElems stack rest (findTxField s (v.which .none))

/-- `decode_record_id_field` and `decode_record_field` on each occurrence. -/
def walkRecord (stack : List Frame) : Record → Ctx → Checked (Option Ctx)
  | .nil, s => some (some s)
  | .recordId id rest, s =>
    (if s.recordDepth = 1 then findTxTypeAndConfig s id else some s).bind fun s =>
      walkRecord stack rest s
  | .field f rest, s =>
    if s.fields.isNone then walkRecord stack rest s
    else if !d.stackHasRoom stack then some none
    else
      andThen (walkNamedItems stack s.valuesOpened f s false) fun (s', seen) =>
        let s' := if !seen then { s' with unreadable := true } else s'
        let s' := findTxField s' (f.which .none)
        walkRecord stack rest { s' with path := s'.path.take s.path.length }

/-- `decode_value_text_map` on each entry. -/
def walkTextMap (stack : List Frame) : TextMap → Ctx → Checked (Option Ctx)
  | .nil, s => some (some s)
  | .entry e rest, s =>
    if !d.stackHasRoom stack then some none
    else
      andThen (walkNamedItems stack s.valuesOpened e s false) fun (s', seen) =>
        let s' := if !seen && s'.fields.isSome then { s' with unreadable := true } else s'
        let s' := findTxField s' (e.which .none)
        walkTextMap stack rest { s' with path := s'.path.take s.path.length }

/-- The occurrences of a record field or TextMap entry. -/
def walkNamedItems (stack : List Frame) (valuesBefore : Nat) :
    NamedValue → Ctx → Bool → Checked (Option (Ctx × Bool))
  | .nil, s, seen => some (some (s, seen))
  | .name l rest, s, _ => walkNamedItems stack valuesBefore rest (decodeLabel valuesBefore s l) true
  | .value v rest, s, seen =>
    andThen (walkValue stack v s) fun s => walkNamedItems stack valuesBefore rest s seen

end

/-- `node_decode_callback` (pb_node_display_parser.c:992–1017). -/
def nodeDecodeCallback (s : Ctx) : NodeKind → Checked (Option Ctx)
  | .exercise e =>
    if !e.chosenValueIsMessage then some none
    else forEach (fun s v => walkValue d [.displayChosenValue] v s)
      (setNodeIdentity s e.contractId e.templateId e.choiceId) e.chosenValue
  | .create c =>
    if !c.argumentIsMessage then some none
    else forEach (fun s v => walkValue d [.displayArgument] v s)
      (setNodeIdentity s c.contractId c.templateId none) c.argument
  | _ => some (some s)

/-- The decode of a node part. -/
def walkNode (s : Ctx) (part : NodePart) : Checked (Option Ctx) :=
  forEach (nodeDecodeCallback d) s (nodeKinds part)

/-- `decode_create` (pb_node_display_parser.c:1132–1164). -/
def decodeCreate (s : Ctx) (c : Create) : Checked (Option Ctx) :=
  forEach (fun s v => walkElems d [.displayContractArgument] (.cons v .nil) s)
    (setNodeIdentity s c.contractId c.templateId none) c.argument

/-- The decode of an input contract. -/
def walkInputContract (s : Ctx) (ic : InputContract) : Checked (Option Ctx) :=
  forEach (decodeCreate d) s ic.v1

end Walk

variable {d : Device}

mutual

theorem walkValue_eq : ∀ (stack : List Frame) (v : Value) (s : Ctx), ValueNamed v →
    walkValue d stack v s = some (DisplayParser.walkValue d stack v s)
  | _, .nil, _, _ => rfl
  | stack, .prim _ rest, s, h => walkValue_eq stack rest s h
  | stack, .record r rest, s, h => by
    rw [walkValue, walkRecord_eq (.record :: stack) r _ h.1]
    exact andThen_some fun s => walkValue_eq stack rest _ h.2
  | stack, .optional vs rest, s, h => by
    rw [walkValue, walkElems_eq (.optional :: stack) vs _ h.1]
    exact andThen_some fun s => walkValue_eq stack rest s h.2
  | stack, .textMap m rest, s, h => by
    rw [walkValue, walkTextMap_eq (.textMap :: stack) m _ h.1]
    exact andThen_some fun s => walkValue_eq stack rest s h.2
  | stack, .unit rest, s, h => walkValue_eq stack rest _ h
  | stack, .list _ rest, s, h => walkValue_eq stack rest _ h
  | stack, .genMap _ rest, s, h => walkValue_eq stack rest _ h
  | stack, .variant _ rest, s, h => walkValue_eq stack rest _ h
  | stack, .enum _ rest, s, h => walkValue_eq stack rest _ h

theorem walkElems_eq : ∀ (stack : List Frame) (vs : Values) (s : Ctx), ElemsNamed vs →
    walkElems d stack vs s = some (DisplayParser.walkElems d stack vs s)
  | _, .nil, _, _ => rfl
  | stack, .cons v rest, s, h => by
    rw [walkElems, DisplayParser.walkElems]
    split
    · rfl
    · rw [walkValue_eq stack v s h.1]
      exact andThen_some fun s => walkElems_eq stack rest _ h.2

theorem walkRecord_eq : ∀ (stack : List Frame) (r : Record) (s : Ctx), RecordNamed r →
    walkRecord d stack r s = some (DisplayParser.walkRecord d stack r s)
  | _, .nil, _, _ => rfl
  | stack, .recordId id rest, s, h => by
    rw [walkRecord, DisplayParser.walkRecord]
    by_cases hdepth : s.recordDepth = 1
    · -- The only place where names are compared.
      rw [if_pos hdepth, if_pos hdepth, findTxTypeAndConfig_eq h.1, Option.bind_some]
      exact walkRecord_eq stack rest _ h.2
    · rw [if_neg hdepth, if_neg hdepth, Option.bind_some]
      exact walkRecord_eq stack rest s h.2
  | stack, .field f rest, s, h => by
    rw [walkRecord, DisplayParser.walkRecord]
    split
    · exact walkRecord_eq stack rest s h.2
    · split
      · rfl
      · rw [walkNamedItems_eq stack s.valuesOpened f s false h.1]
        exact andThen_some fun (s', seen) => walkRecord_eq stack rest _ h.2

theorem walkTextMap_eq : ∀ (stack : List Frame) (m : TextMap) (s : Ctx), TextMapNamed m →
    walkTextMap d stack m s = some (DisplayParser.walkTextMap d stack m s)
  | _, .nil, _, _ => rfl
  | stack, .entry e rest, s, h => by
    rw [walkTextMap, DisplayParser.walkTextMap]
    split
    · rfl
    · rw [walkNamedItems_eq stack s.valuesOpened e s false h.1]
      exact andThen_some fun (s', seen) => walkTextMap_eq stack rest _ h.2

theorem walkNamedItems_eq : ∀ (stack : List Frame) (n : Nat) (f : NamedValue) (s : Ctx)
    (seen : Bool),
    ItemsNamed f →
      walkNamedItems d stack n f s seen = some (DisplayParser.walkNamedItems d stack n f s seen)
  | _, _, .nil, _, _, _ => rfl
  | stack, n, .name l rest, s, _, h => walkNamedItems_eq stack n rest _ true h
  | stack, n, .value v rest, s, seen, h => by
    rw [walkNamedItems, walkValue_eq stack v s h.1]
    exact andThen_some fun s => walkNamedItems_eq stack n rest s seen h.2

end

theorem walkNode_eq {part : NodePart} (h : ∀ k ∈ nodeKinds part, KindNamed k) (s : Ctx) :
    walkNode d s part = some (DisplayParser.walkNode d s part) := by
  refine forEach_eq (fun k hk s => ?_) s
  have hk := h k hk
  cases k with
  | exercise e =>
    unfold nodeDecodeCallback DisplayParser.nodeDecodeCallback
    dsimp only
    split
    · rfl
    · exact forEach_eq (fun v hv s => walkValue_eq _ v s (hk v hv)) _
  | create c =>
    unfold nodeDecodeCallback DisplayParser.nodeDecodeCallback
    dsimp only
    split
    · rfl
    · exact forEach_eq (fun v hv s => walkValue_eq _ v s (hk v hv)) _
  | fetch f => rfl
  | rollback r => rfl
  | queryByKey => rfl

theorem walkInputContract_eq {ic : InputContract}
    (h : ∀ c ∈ ic.v1, ∀ v ∈ c.argument, ValueNamed v) (s : Ctx) :
    walkInputContract d s ic = some (DisplayParser.walkInputContract d s ic) :=
  forEach_eq (fun c hc _ =>
    forEach_eq (fun v hv s => walkElems_eq _ (.cons v .nil) s ⟨h c hc v hv, trivial⟩) _) s

end Checked

end DisplayParser

end CantonSigner

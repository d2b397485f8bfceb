import ShaderDef.Proofs.Grammar.Value

/-! The canonical text of a definition, and the declarations it spells out. -/

namespace ShaderDef

def Stage.all : List Stage :=
  [.shared, .vertex, .fragment]

def Entry.all : List Entry :=
  [.vertex, .fragment]

def Stage.word : Stage → String
  | .shared => "Shared"
  | .vertex => "Vertex"
  | .fragment => "Fragment"

def Entry.word : Entry → String
  | .vertex => "Vertex"
  | .fragment => "Fragment"

def Sources.stages (s : Sources) : List (Stage × String) :=
  Stage.all.filterMap fun stage => (s.code stage).map fun text => (stage, text)

def Interface.entries (i : Interface) : List (Entry × String) :=
  Entry.all.filterMap fun which => (i.entry which).map fun text => (which, text)

namespace Render

def quoted (text : String) : String :=
  "\"" ++ (text ++ "\"")

def scope (head body : String) : String :=
  (head ++ " ") ++ ("\x7b" ++ (body ++ "\x7d"))

def binding (b : Binding) : String :=
  (b.type ++ " ") ++ ((b.name ++ " ") ++ (": " ++ (b.slot ++ ";")))

def list (bs : List Binding) : String :=
  .join (bs.map binding)

def line (keyword text : String) : String :=
  (keyword ++ " ") ++ (quoted text ++ ";")

def buffer (u : UniformBuffer) : String :=
  scope ("Uniforms " ++ quoted u.name) (list u.bindings)

def bindings (i : Interface) : String :=
  scope "Bindings" (.join (i.uniformBuffers.map buffer) ++ scope "Textures" (list i.textures))

def inputs (head : String) (bs : List Binding) : String :=
  if bs = [] then "" else scope head (list bs)

def stage (s : Stage × String) : String :=
  scope s.1.word s.2

def entry (e : Entry × String) : String :=
  line e.1.word e.2

def shader (d : Definition) : String :=
  scope "Shader" (.join (d.sources.stages.map stage) ++
    scope "Entrypoint" (.join (d.interface.entries.map entry)))

end Render

namespace Definition

def render (d : Definition) : String :=
  .join (d.interface.name.toList.map (Render.line "Name")) ++
    (Render.bindings d.interface ++ (Render.inputs "Input" d.interface.inputs ++
      (Render.inputs "PixelInput" d.interface.pixelInputs ++ Render.shader d)))

def bindingsParts (d : Definition) : List (List Declaration) :=
  d.interface.uniformBuffers.map (fun u => [.uniforms u]) ++ [[.textures d.interface.textures]]

def shaderParts (d : Definition) : List (List Declaration) :=
  d.sources.stages.map (fun s => [.code s.1 s.2]) ++
    [d.interface.entries.map fun e => .entry e.1 e.2]

def inputParts (build : List Binding → Declaration) (bs : List Binding) : List (List Declaration) :=
  if bs = [] then [] else [[build bs]]

def parts (d : Definition) : List (List Declaration) :=
  d.interface.name.toList.map (fun text => [.name text]) ++
    ([d.bindingsParts.flatten] ++ (inputParts .input d.interface.inputs ++
      (inputParts .pixelInput d.interface.pixelInputs ++ [d.shaderParts.flatten])))

end Definition

section Chosen

variable {α β γ : Type} {all : List α} {pick : α → Option β}

theorem mem_chosen (complete : ∀ a, a ∈ all) {a : α} {b : β} :
    (a, b) ∈ all.filterMap (fun a => (pick a).map fun b => (a, b)) ↔ pick a = some b := by
  simp only [List.mem_filterMap, Option.map_eq_some_iff, Prod.mk.injEq]
  constructor
  · intro listed
    obtain ⟨_, _, _, picked, rfl, rfl⟩ := listed
    exact picked
  · intro picked
    exact ⟨a, complete a, b, picked, rfl, rfl⟩

theorem chosen_sublist (name : α → γ) :
    ((all.filterMap fun a => (pick a).map fun b => (a, b)).map fun p => name p.1).Sublist
      (all.map name) := by
  induction all with
  | nil => exact .slnil
  | cons a all ih =>
    cases picked : pick a with
    | none =>
      rw [List.filterMap_cons_none (by rw [picked]; rfl)]
      exact ih.cons _
    | some b =>
      rw [List.filterMap_cons_some (by rw [picked]; rfl)]
      exact ih.cons_cons _

end Chosen

/-- What is chosen belongs to the items of some among all. -/
theorem items_of_chosen {α : Type} {all : List α} {pick : α → Option String} {item : α → Item}
    {build : α × String → Declaration} (belongs : ∀ p, (build p).item? = some (item p.1)) :
    (((all.filterMap fun a => (pick a).map fun text => (a, text)).map build).filterMap
      Declaration.item?).Sublist (all.map item) := by
  have same : (Declaration.item? ∘ build) = some ∘ fun p => item p.1 := funext belongs
  rw [List.filterMap_map, same, List.filterMap_eq_map]
  exact chosen_sublist item

theorem Sources.mem_stages {s : Sources} {stage : Stage} {text : String} :
    (stage, text) ∈ s.stages ↔ s.code stage = some text :=
  mem_chosen fun a => by cases a <;> decide

theorem Interface.mem_entries {i : Interface} {which : Entry} {text : String} :
    (which, text) ∈ i.entries ↔ i.entry which = some text :=
  mem_chosen fun a => by cases a <;> decide

theorem flatten_map_single {α β : Type} (f : α → β) (l : List α) :
    (l.map fun a => [f a]).flatten = l.map f := by
  rw [← List.flatMap_def, ← List.map_eq_flatMap]

namespace Definition

theorem flatten_inputParts (build : List Binding → Declaration) (bs : List Binding) :
    (inputParts build bs).flatten = if bs = [] then [] else [build bs] := by
  unfold inputParts
  split <;> rfl

variable (d : Definition)

theorem flatten_parts : d.parts.flatten =
    d.interface.name.toList.map .name ++ (d.interface.uniformBuffers.map .uniforms ++
      ([.textures d.interface.textures] ++
        ((if d.interface.inputs = [] then [] else [.input d.interface.inputs]) ++
          ((if d.interface.pixelInputs = [] then [] else [.pixelInput d.interface.pixelInputs]) ++
            (d.sources.stages.map (fun s => .code s.1 s.2) ++
              d.interface.entries.map fun e => .entry e.1 e.2))))) := by
  simp only [parts, bindingsParts, shaderParts, List.flatten_append, flatten_map_single,
    flatten_inputParts, List.flatten_singleton, List.append_assoc]

theorem parts_single : (d.parts.flatten.filterMap Declaration.item?).Nodup := by
  have every : ([Item.name] ++ ([] ++ ([] ++ ([Item.input] ++ ([Item.pixelInput] ++
      (Stage.all.map Item.code ++ Entry.all.map Item.entry)))))).Nodup := by decide
  have optional : ∀ (build : List Binding → Declaration) (item : Item) (bs : List Binding),
      (∀ bs, (build bs).item? = some item) →
      ((if bs = [] then [] else [build bs]).filterMap Declaration.item?).Sublist [item] := by
    intro build item bs belongs
    split
    · exact List.nil_sublist _
    · rw [List.filterMap_cons_some (belongs bs)]
      exact List.Sublist.refl _
  refine List.Nodup.sublist ?_ every
  rw [flatten_parts]
  simp only [List.filterMap_append]
  refine .append ?_ (.append ?_ (.append ?_ (.append ?_ (.append ?_ (.append ?_ ?_)))))
  · cases d.interface.name with
    | none => exact List.nil_sublist _
    | some text => exact List.Sublist.refl _
  · simp [List.filterMap_map, Declaration.item?, Function.comp_def]
  · exact List.Sublist.refl _
  · exact optional _ _ _ fun _ => rfl
  · exact optional _ _ _ fun _ => rfl
  · exact items_of_chosen fun _ => rfl
  · exact items_of_chosen fun _ => rfl

/-- What names, stages and entry points say nothing about comes from the other declarations. -/
theorem flatMap_parts {β : Type} {list : Declaration → List β}
    (name : ∀ text, list (.name text) = [])
    (code : ∀ s : Stage × String, list (.code s.1 s.2) = [])
    (entry : ∀ e : Entry × String, list (.entry e.1 e.2) = []) :
    d.parts.flatten.flatMap list =
      (d.interface.uniformBuffers.flatMap fun u => list (.uniforms u)) ++
        (list (.textures d.interface.textures) ++
          ((if d.interface.inputs = [] then [] else list (.input d.interface.inputs)) ++
            if d.interface.pixelInputs = [] then []
            else list (.pixelInput d.interface.pixelInputs))) := by
  have none : ∀ {α : Type} {build : α → Declaration} (l : List α),
      (∀ a, list (build a) = []) → (l.map build).flatMap list = [] := by
    intro α build l free
    refine List.flatMap_eq_nil_iff.2 fun c member => ?_
    obtain ⟨a, _, rfl⟩ := List.mem_map.1 member
    exact free a
  have optional : ∀ (build : List Binding → Declaration) (bs : List Binding),
      (if bs = [] then [] else [build bs]).flatMap list =
        if bs = [] then [] else list (build bs) := by
    intro build bs
    split <;> simp
  rw [flatten_parts]
  simp only [List.flatMap_append, none _ name, none _ code, none _ entry, optional,
    List.flatMap_singleton, List.flatMap_map, List.nil_append, List.append_nil]

theorem declares_parts : d.Declares d.parts.flatten where
  name text := by
    rw [flatten_parts]
    simp
  uniformBuffers := by
    rw [List.filterMap_eq_flatMap_toList,
      d.flatMap_parts (fun _ => rfl) (fun _ => rfl) fun _ => rfl]
    simp [Declaration.uniforms?]
  textures := by
    rw [d.flatMap_parts (fun _ => rfl) (fun _ => rfl) fun _ => rfl]
    simp [Declaration.textureList]
  inputs := by
    rw [d.flatMap_parts (fun _ => rfl) (fun _ => rfl) fun _ => rfl]
    by_cases none : d.interface.inputs = [] <;> simp [Declaration.inputList, none]
  pixelInputs := by
    rw [d.flatMap_parts (fun _ => rfl) (fun _ => rfl) fun _ => rfl]
    by_cases none : d.interface.pixelInputs = [] <;> simp [Declaration.pixelInputList, none]
  entry which text := by
    rw [flatten_parts]
    simp [Interface.mem_entries]
  code stage text := by
    rw [flatten_parts]
    simp [Sources.mem_stages]

end Definition

end ShaderDef

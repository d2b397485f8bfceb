import ShaderDef.Proofs.Composition.Shift

/-! Merged definitions. Where the items of two lists of declarations are disjoint, the definition of
both lists has the buffers and textures of both and takes each other item from its own list. -/

namespace ShaderDef

namespace Definition

/-- Buffers and textures of both definitions. Every other item is taken from the first one if that
declares it, and else from the second one. -/
def merge (declared : List Item) (d e : Definition) : Definition where
  interface :=
    { name := if .name ∈ declared then d.interface.name else e.interface.name
      uniformBuffers := d.interface.uniformBuffers ++ e.interface.uniformBuffers
      textures := d.interface.textures ++ e.interface.textures
      inputs := if .input ∈ declared then d.interface.inputs else e.interface.inputs
      pixelInputs :=
        if .pixelInput ∈ declared then d.interface.pixelInputs else e.interface.pixelInputs
      vertexEntry :=
        if .entry .vertex ∈ declared then d.interface.vertexEntry else e.interface.vertexEntry
      pixelEntry :=
        if .entry .fragment ∈ declared then d.interface.pixelEntry else e.interface.pixelEntry }
  sources :=
    { shared := if .code .shared ∈ declared then d.sources.shared else e.sources.shared
      vertex := if .code .vertex ∈ declared then d.sources.vertex else e.sources.vertex
      fragment := if .code .fragment ∈ declared then d.sources.fragment else e.sources.fragment }

variable {d e : Definition} {ds es : List Declaration}

theorem merge_some_iff {item : Item} {build : String → Declaration} {o o' : Option String}
    (apart : (ds.filterMap Declaration.item?).Disjoint (es.filterMap Declaration.item?))
    (belongs : ∀ text, (build text).item? = some item)
    (first : ∀ text, o = some text ↔ build text ∈ ds)
    (second : ∀ text, o' = some text ↔ build text ∈ es) (text : String) :
    (if item ∈ ds.filterMap Declaration.item? then o else o') = some text ↔
      build text ∈ ds ++ es := by
  have declares : ∀ {cs : List Declaration}, build text ∈ cs →
      item ∈ cs.filterMap Declaration.item? :=
    fun member => List.mem_filterMap.2 ⟨_, member, belongs text⟩
  rw [List.mem_append]
  by_cases known : item ∈ ds.filterMap Declaration.item?
  · rw [if_pos known, first]
    refine ⟨.inl, fun member => member.resolve_right fun other => ?_⟩
    exact apart known (declares other)
  · rw [if_neg known, second]
    exact ⟨.inr, fun member => member.resolve_left fun other => known (declares other)⟩

theorem merge_list {item : Item} {list : Declaration → List Binding}
    (apart : (ds.filterMap Declaration.item?).Disjoint (es.filterMap Declaration.item?))
    (belongs : ∀ c, list c ≠ [] → c.item? = some item) :
    (if item ∈ ds.filterMap Declaration.item? then ds.flatMap list else es.flatMap list) =
      (ds ++ es).flatMap list := by
  have none : ∀ {cs : List Declaration}, item ∉ cs.filterMap Declaration.item? →
      cs.flatMap list = [] := by
    intro cs missing
    refine List.flatMap_eq_nil_iff.2 fun c member => ?_
    by_contra some
    exact missing (List.mem_filterMap.2 ⟨c, member, belongs c some⟩)
  rw [List.flatMap_append]
  by_cases known : item ∈ ds.filterMap Declaration.item?
  · rw [if_pos known, none fun other => apart known other, List.append_nil]
  · rw [if_neg known, none known, List.nil_append]

theorem declares_merge (first : d.Declares ds) (second : e.Declares es)
    (apart : (ds.filterMap Declaration.item?).Disjoint (es.filterMap Declaration.item?)) :
    (d.merge (ds.filterMap Declaration.item?) e).Declares (ds ++ es) where
  name := merge_some_iff apart (fun _ => rfl) first.name second.name
  uniformBuffers := by
    rw [List.filterMap_append, ← first.uniformBuffers, ← second.uniformBuffers]
    rfl
  textures := by
    rw [List.flatMap_append, ← first.textures, ← second.textures]
    rfl
  inputs := by
    rw [← merge_list apart fun _ => Declaration.item?_of_inputList, ← first.inputs,
      ← second.inputs]
    rfl
  pixelInputs := by
    rw [← merge_list apart fun _ => Declaration.item?_of_pixelInputList, ← first.pixelInputs,
      ← second.pixelInputs]
    rfl
  entry := by
    rintro (_ | _)
    · exact merge_some_iff apart (fun _ => rfl) (first.entry .vertex) (second.entry .vertex)
    · exact merge_some_iff apart (fun _ => rfl) (first.entry .fragment) (second.entry .fragment)
  code := by
    rintro (_ | _ | _)
    · exact merge_some_iff apart (fun _ => rfl) (first.code .shared) (second.code .shared)
    · exact merge_some_iff apart (fun _ => rfl) (first.code .vertex) (second.code .vertex)
    · exact merge_some_iff apart (fun _ => rfl) (first.code .fragment) (second.code .fragment)

end Definition

end ShaderDef

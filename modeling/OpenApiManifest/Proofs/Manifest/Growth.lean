import OpenApiManifest.Proofs.Manifest.Mentioned
import OpenApiManifest.Proofs.Manifest.Tally
import OpenApiManifest.Proofs.Walk.Sequences

/-!
# Asking for all schemas

Asking for all schemas goes on with a second walk after the one from the paths, and so it only adds
models at the end of a manifest (`Generator.version_allSchemas`): each schema of the components that is
emitted is one of them.
-/

namespace OpenApiManifest

/-- The schemas of the components that are emitted under a name. -/
lemma Schema.isEmitted_of_tag {listModels : List String} {name : String} {schema : Schema}
    (h : schema.tag ∈ [.object, .enum, .oneOf, .allOf] ∨
      schema.tag = .array ∧ name ∈ listModels ∨
      schema.tag = .anyOf ∧ schema.info.declaredType = some .object) :
    schema.isEmitted listModels name = true := by
  unfold tag at h
  unfold isEmitted
  cases hk : schema.kind <;> simp_all

section Spelled

variable [Spelling]

namespace Generator

variable {settings : Settings} {document : Document}

/-- When all schemas are collected, those that the paths reach can be collected, and come first. -/
lemma collect_grows (h : (collect ⟨settings, true⟩ document .empty).result = .ok ()) :
    (collect ⟨settings, false⟩ document .empty).result = .ok () ∧
      (collect ⟨settings, false⟩ document .empty).registry.models <+:
        (collect ⟨settings, true⟩ document .empty).registry.models := by
  obtain ⟨_, paths, -, after⟩ := Walk.exists_of_bind_ok h
  have components : WalkRoot.components.Of document := trivial
  have grown := (components.fills .everything
    (WalkRoot.paths.walk document .everything .empty).registry).1.grows
  rcases hw : WalkRoot.paths.walk document .everything .empty with ⟨registry, found, result⟩
  rw [hw] at paths after grown
  obtain rfl : result = .ok () := paths
  have first : collect ⟨settings, false⟩ document .empty = ⟨registry, found ++ [], .ok ()⟩ :=
    Walk.bind_apply_of_ok hw
  rw [first, show (collect ⟨settings, true⟩ document .empty).registry = _ from after]
  exact ⟨rfl, grown⟩

/-- When all schemas are collected, those of the components are registered under their names. -/
lemma registered_of_collect (coherent : document.Coherent)
    (h : (collect ⟨settings, true⟩ document .empty).result = .ok ()) {key : String} {schema : Schema}
    (held : document.schema? key = some (.owned schema)) :
    (collect ⟨settings, true⟩ document .empty).registry.get? key = some ⟨schema, .component⟩ := by
  have walked := (collect_visits coherent ⟨settings, true⟩).collects.walked h
  have stored : .owned schema ∈ document.components.schemas.values :=
    List.mem_map.2 ⟨_, Entries.mem_of_get? held, rfl⟩
  have named : schema.name? = some key :=
    (coherent.name?_eq_some_iff (Document.contains_of_schema? held)).2 held
  exact (walked.registered_of_name (.first ⟨_, .inr ⟨rfl, .components stored⟩, rfl⟩) rfl
    Slot.resolve_owned named).1

end Generator

namespace Builder

variable {builder : Builder} {statistics after : Statistics}

/-- Describing more models describes the first ones, and adds to them. -/
lemma models_prefix {part whole : Registry} (grown : part.models <+: whole.models)
    {models : Entries ModelEntry}
    (h : (builder.models whole statistics).result = .ok (models, after)) :
    ∃ fewer before, (builder.models part statistics).result = .ok (fewer, before) ∧
      fewer <+: models := by
  obtain ⟨rest, e⟩ := grown
  rw [Builder.models, ← e, List.foldlM_append] at h
  obtain ⟨⟨fewer, before⟩, hf, h⟩ := Run.bind_result_eq_ok.1 h
  refine ⟨fewer, before, hf, ?_⟩
  refine Run.foldlM_keeps (fun state : Entries ModelEntry × Statistics => fewer <+: state.1)
    (List.prefix_refl fewer) ?_ h
  rintro ⟨described, _⟩ ⟨name, registered⟩ next - kept step
  obtain ⟨⟨model, warnings⟩, -, step⟩ := Run.bind_result_eq_ok.1 step
  cases step
  exact kept.trans (List.prefix_append _ _)

/-- Building a manifest with more models builds it with the first ones, and adds models only. -/
lemma build_prefix {part whole : Registry} (grown : part.models <+: whole.models)
    {cycles : List (List String)} {full : VersionManifest}
    (h : (builder.build whole cycles).result = .ok (full, after)) :
    full.models.keys = whole.names ∧
      ∃ fewer counted, (builder.build part cycles).result = .ok (fewer, counted) ∧
        fewer.info = full.info ∧ fewer.servers = full.servers ∧ fewer.apis = full.apis ∧
        fewer.cycles = full.cycles ∧ fewer.models <+: full.models := by
  obtain ⟨counted, _, ha, hm, ⟨info, servers, rfl⟩, -⟩ := build_eq_ok_iff.1 h
  obtain ⟨fewer, before, hf, kept⟩ := models_prefix grown hm
  refine ⟨(exists_of_models hm).1, ?_⟩
  refine ⟨{ full with models := fewer }, before.addCycles full.cycles, ?_, rfl, rfl, rfl, rfl, kept⟩
  exact build_eq_ok_iff.2 ⟨counted, before, ha, hf, ⟨info, servers, rfl⟩, rfl⟩

end Builder

/-- A manifest is built from what the models of its document are collected into: each of its models is
described as it is registered. -/
lemma Generator.exists_of_version {generator : Generator} {name : String} {tree : Json}
    (distinct : tree.keysDistinct = true) {manifest : VersionManifest} {statistics : Statistics}
    (h : generator.version name tree = .ok (manifest, statistics)) :
    ∃ document, Document.read ⟨0⟩ tree = .ok document ∧
      (generator.collect document .empty).result = .ok () ∧
      manifest.models.keys = ((generator.collect document .empty).registry.emitted
        (generator.settings.listModelsOf name)).names ∧
      ∀ own entry, (own, entry) ∈ manifest.models → ∃ registered,
        (generator.collect document .empty).registry.get? own = some registered ∧
        registered.Proper document own ∧
        ∃ warnings, ((generator.builder name document).model own registered).result =
          .ok (entry, warnings) := by
  obtain ⟨document, read, collected, built⟩ := version_eq_ok_iff.1 h
  obtain ⟨_, _, -, hm, -⟩ := Builder.build_eq_ok_iff.1 built
  obtain ⟨keys, described⟩ := Builder.exists_of_models hm
  have walked :=
    (collect_visits (Document.coherent_of_read read distinct) generator).collects.walked collected
  refine ⟨document, read, collected, keys, fun own entry mem => ?_⟩
  obtain ⟨registered, held, warnings, hd⟩ := described own entry mem
  have held := (List.mem_filter.1 held).1
  exact ⟨registered, walked.proper.get?_eq_some_iff.2 held, walked.proper.models own registered held,
    warnings, hd⟩

/-- If the manifest of a version is generated with all schemas, it is generated without asking for them:
everything in it is the same but the models, of which it has the first ones.  With all schemas, every
object, enumeration, choice and composition of the components is a model, and so are the arrays that are
listed and the alternatives that are declared objects. -/
theorem Generator.version_allSchemas {settings : Settings} {name : String} {tree : Json}
    {full : VersionManifest} {statistics : Statistics} (distinct : tree.keysDistinct = true)
    (h : Generator.version ⟨settings, true⟩ name tree = .ok (full, statistics)) :
    (∃ fewer counted, Generator.version ⟨settings, false⟩ name tree = .ok (fewer, counted) ∧
        fewer.info = full.info ∧ fewer.servers = full.servers ∧ fewer.apis = full.apis ∧
        fewer.cycles = full.cycles ∧ fewer.models <+: full.models) ∧
      ∃ document, Document.read ⟨0⟩ tree = .ok document ∧
        ∀ key schema, document.schema? key = some (.owned schema) →
          (schema.tag ∈ [.object, .enum, .oneOf, .allOf] ∨
            schema.tag = .array ∧ key ∈ settings.listModelsOf name ∨
            schema.tag = .anyOf ∧ schema.info.declaredType = some .object) →
          key ∈ full.models.keys := by
  obtain ⟨document, read, collected, built⟩ := version_eq_ok_iff.1 h
  obtain ⟨collected', grown⟩ := collect_grows collected
  have emitted : ((collect ⟨settings, false⟩ document .empty).registry.emitted
      (settings.listModelsOf name)).models <+: ((collect ⟨settings, true⟩ document .empty).registry.emitted
        (settings.listModelsOf name)).models := grown.filter _
  obtain ⟨keys, fewer, counted, built', same⟩ := Builder.build_prefix emitted built
  refine ⟨⟨fewer, counted, version_eq_ok_iff.2 ⟨document, read, collected', built'⟩, same⟩, ?_⟩
  refine ⟨document, read, fun key schema held shape => ?_⟩
  have coherent := Document.coherent_of_read read distinct
  have registered := Entries.mem_of_get? (registered_of_collect coherent collected held)
  rw [keys]
  refine List.mem_map.2 ⟨_, List.mem_filter.2 ⟨registered, ?_⟩, rfl⟩
  exact Schema.isEmitted_of_tag shape

end Spelled

attribute [local instance] Spelling.german

/-- A description of an operation that answers with one of two schemas. -/
def orphanTree : Json :=
  .obj [
    ("openapi", .str "3.0.0"),
    ("info", .obj [("title", .str "Ping"), ("version", .str "1")]),
    ("paths", .obj [("/ping", .obj [("get", .obj [("responses", .obj [("200",
      .obj [("content", .obj [("application/json", .obj [("schema",
        .obj [("$ref", .str "#/components/schemas/Pong")])])])])])])])]),
    ("components", .obj [("schemas", .obj [
      ("Orphan", .obj [("enum", .arr [.str "on", .str "off"])]),
      ("Pong", .obj [("properties", .obj [("at", .obj [("type", .str "string")])])])])])]

/-- The schema that is not answered with is added at the end. -/
theorem Generator.version_allSchemas_orphan :
    orphanTree.keysDistinct = true ∧ ∃ full statistics,
      Generator.version ⟨.standard, true⟩ "v1" orphanTree = .ok (full, statistics) ∧
      full.models.keys = ["Pong", "Orphan"] ∧
      ∃ fewer counted, Generator.version ⟨.standard, false⟩ "v1" orphanTree = .ok (fewer, counted) ∧
        fewer.models.keys = ["Pong"] ∧ fewer.models <+: full.models := by
  have distinct : orphanTree.keysDistinct = true := by decide +kernel
  have all : (Generator.version ⟨.standard, true⟩ "v1" orphanTree).toOption.map
      (fun outcome => outcome.1.models.keys) = some ["Pong", "Orphan"] := by decide +kernel
  have reached : (Generator.version ⟨.standard, false⟩ "v1" orphanTree).toOption.map
      (fun outcome => outcome.1.models.keys) = some ["Pong"] := by decide +kernel
  obtain ⟨⟨full, statistics⟩, found, keys⟩ := Option.map_eq_some_iff.1 all
  obtain ⟨⟨part, _⟩, found', keys'⟩ := Option.map_eq_some_iff.1 reached
  have h := toOption_eq_some.1 found
  obtain ⟨⟨fewer, counted, h', -, -, -, -, kept⟩, -⟩ := version_allSchemas distinct h
  obtain ⟨rfl, rfl⟩ := Prod.mk.inj (Except.ok.inj (h'.symm.trans (toOption_eq_some.1 found')))
  exact ⟨distinct, full, statistics, h, keys, fewer, counted, h', keys', kept⟩

end OpenApiManifest

import Bindery.CommandLine.Run
import Bindery.Proofs.Document.Settings
import Bindery.Proofs.FileSystem
import Mathlib.Data.Finset.Image

/-!
# Reading configurations back

The text of a configuration gives the same configuration back, and so does the file it has been
written to.  If fields are left out of the document, they have their standard values in what is read
(`Config.read_documentWithout`).

What is written for a field is read back alone (`Proofs/Document/Settings.lean`), and a field that is
left out of the document is not found among its members (`Config.lookup_membersWithout`).
-/

namespace Bindery.Config

open Json CommandLine

/-! ## Leaving fields out -/

/-- The fields of a configuration. -/
inductive Field where
  | libraryName
  | outputNamespace
  | headers
  | includeDirs
  | defines
  | namePrefix
  | capitalised
  | renames
  | suppressed
  | passes
  | substitutions
  deriving DecidableEq

/-- The name of a field in documents. -/
def Field.key : Field → String
  | .libraryName => "library_name"
  | .outputNamespace => "output_namespace"
  | .headers => "headers"
  | .includeDirs => "include_dirs"
  | .defines => "defines"
  | .namePrefix => "prefix"
  | .capitalised => "rename_upper_case"
  | .renames => "renames"
  | .suppressed => "suppress"
  | .passes => "passes"
  | .substitutions => "substitutions"

lemma Field.key_injective : Function.Injective Field.key := by
  intro field other h
  cases field <;> cases other <;> first | rfl | exact absurd h (by decide)

variable (config : Config) (dropped : Finset Field)

/-- The configuration with the standard values in some of its fields. -/
def reset : Config where
  libraryName := if .libraryName ∈ dropped then standard.libraryName else config.libraryName
  outputNamespace :=
    if .outputNamespace ∈ dropped then standard.outputNamespace else config.outputNamespace
  headers := if .headers ∈ dropped then standard.headers else config.headers
  includeDirs := if .includeDirs ∈ dropped then standard.includeDirs else config.includeDirs
  defines := if .defines ∈ dropped then standard.defines else config.defines
  namePrefix := if .namePrefix ∈ dropped then standard.namePrefix else config.namePrefix
  capitalised := if .capitalised ∈ dropped then standard.capitalised else config.capitalised
  renames := if .renames ∈ dropped then standard.renames else config.renames
  suppressed := if .suppressed ∈ dropped then standard.suppressed else config.suppressed
  passes := if .passes ∈ dropped then standard.passes else config.passes
  substitutions :=
    if .substitutions ∈ dropped then standard.substitutions else config.substitutions

/-- The members of the document of a configuration, without those of some fields. -/
def membersWithout : Fields :=
  config.members.filter fun member => member.1 ∉ dropped.image Field.key

/-- The document of a configuration, without some fields. -/
def documentWithout : Json := record (config.membersWithout dropped)

lemma documentWithout_empty : config.documentWithout ∅ = config.toJson := by
  have hall : config.membersWithout ∅ = config.members :=
    List.filter_eq_self.2 fun member _ => by simp
  rw [documentWithout, hall, toJson]

/-! ## Reading the fields -/

/-- Of the members whose keys satisfy a condition, the one with a key is found if it does. -/
lemma lookup_filter (p : String → Bool) (fields : Fields) (key : String) :
    (fields.filter (p ·.1)).lookup key = if p key then fields.lookup key else none := by
  induction fields with
  | nil => simp
  | cons member fields ih =>
    obtain ⟨first, v⟩ := member
    by_cases hkey : key = first
    · subst hkey
      cases hp : p key
      · simpa [hp] using ih
      · simp [hp]
    · have hne : (key == first) = false := beq_eq_false_iff_ne.2 hkey
      cases hp : p first <;> simpa [hp, List.lookup_cons, hne] using ih

lemma fieldsOf?_documentWithout : fieldsOf? fieldNames (config.documentWithout dropped) =
    some (config.membersWithout dropped) := by
  have hkeys : ((config.membersWithout dropped).map (·.1)).Sublist (config.members.map (·.1)) :=
    List.filter_sublist.map _
  exact fieldsOf?_record (by decide) hkeys

/-- A field has what was written for it, or its standard value if it has been left out. -/
lemma withDefault?_membersWithout {α : Type} (field : Field) {v : Json}
    {decode : Json → Option α} {a : α} (default : α) (hread : decode v = some a)
    (hmember : config.members.lookup field.key = some v) :
    (config.membersWithout dropped).withDefault? field.key default decode =
      some (if field ∈ dropped then default else a) := by
  refine Fields.withDefault?_of_kept default ?_ hread
  have hdropped : field.key ∈ dropped.image Field.key ↔ field ∈ dropped :=
    Field.key_injective.mem_finset_image
  have hlookup := lookup_filter (· ∉ dropped.image Field.key) config.members field.key
  rw [membersWithout, hlookup, hmember]
  simp only [hdropped, decide_eq_true_eq, ite_not]

/-- The document of a configuration gives its fields back, and the standard values of those that
have been left out. -/
lemma ofJson?_documentWithout (budget : Nat) :
    ofJson? (budget + 3) (config.documentWithout dropped) = some (config.reset dropped) := by
  have htext (s : String) : asText? (Json.text s) = some s := rfl
  have htexts (items : List String) :
      asList? (fun _ => asText?) (budget + 2) (ofList Json.text items) = some items :=
    ReadsBackFlat.list readsBackFlat_text items budget
  have hlibrary := config.withDefault?_membersWithout dropped .libraryName standard.libraryName
    (htext _) rfl
  have hnamespace := config.withDefault?_membersWithout dropped .outputNamespace
    standard.outputNamespace (htext _) rfl
  have hheaders := config.withDefault?_membersWithout dropped .headers standard.headers
    (htexts _) rfl
  have hincludes := config.withDefault?_membersWithout dropped .includeDirs standard.includeDirs
    (htexts _) rfl
  have hdefines := config.withDefault?_membersWithout dropped .defines standard.defines
    (htexts _) rfl
  have hprefix := config.withDefault?_membersWithout dropped .namePrefix standard.namePrefix
    (config.namePrefix.readsBackFlat.single (budget + 1)) rfl
  have hcapitalised := config.withDefault?_membersWithout dropped .capitalised
    standard.capitalised (ReadsBackFlat.list CapitalTarget.readsBackFlat _ budget) rfl
  have hrenames := config.withDefault?_membersWithout dropped .renames standard.renames
    (ReadsBackFlat.list Renaming.readsBackFlat _ budget) rfl
  have hsuppressed := config.withDefault?_membersWithout dropped .suppressed standard.suppressed
    (ReadsBackFlat.list Selector.readsBackFlat _ budget) rfl
  have hpasses := config.withDefault?_membersWithout dropped .passes standard.passes
    (ReadsBackFlat.list Pass.readsBackFlat _ budget) rfl
  have hsubstitutions := config.withDefault?_membersWithout dropped .substitutions
    standard.substitutions (ReadsBackFlat.list Substitution.readsBackFlat _ budget) rfl
  simp only [Field.key] at hlibrary hnamespace hheaders hincludes hdefines hprefix
  simp only [Field.key] at hcapitalised hrenames hsuppressed hpasses hsubstitutions
  rw [ofJson?, fieldsOf?_documentWithout]
  rw [Option.bind_eq_bind, Option.bind_some]
  dsimp only
  rw [hlibrary, hnamespace, hheaders, hincludes, hdefines, hprefix, hcapitalised, hrenames,
    hsuppressed, hpasses, hsubstitutions]
  rfl

lemma isIntegral_documentWithout : (config.documentWithout dropped).isIntegral = true := by
  have htexts := ReadsBackFlat.isIntegral_list readsBackFlat_text
  have hmembers : ∀ member ∈ config.members, member.2.isIntegral = true := by
    simp only [members, List.forall_mem_cons, List.not_mem_nil, false_implies, implies_true,
      and_true]
    exact ⟨rfl, rfl, htexts _, htexts _, htexts _, config.namePrefix.readsBackFlat.isFlat.isIntegral,
      ReadsBackFlat.isIntegral_list CapitalTarget.readsBackFlat _,
      ReadsBackFlat.isIntegral_list Renaming.readsBackFlat _,
      ReadsBackFlat.isIntegral_list Selector.readsBackFlat _,
      ReadsBackFlat.isIntegral_list Pass.readsBackFlat _,
      ReadsBackFlat.isIntegral_list Substitution.readsBackFlat _⟩
  exact isIntegral_record_iff.2 fun member h => hmembers member (List.mem_of_mem_filter h)

/-! ## Reading the text -/

lemma read?_of_document {text : String}
    (h : Json.read? text = some (config.documentWithout dropped)) :
    read? text = some (config.reset dropped) := by
  rw [read?, h, Option.bind_some]
  exact config.ofJson?_documentWithout dropped 124

/-- What is read from a text is loaded from the file it has been written to. -/
lemma loadConfig_of_write {text path : String} {fs written : FileSystem}
    (hread : read? text = some config) (hwrite : fs.write path text = some written) :
    (loadConfig (.file path) : StateM FileSystem _).run written = (.ok config, written) := by
  have hfile : (Disk.readFile path : StateM FileSystem _).run written = (some text, written) :=
    congrArg (·, written) (FileSystem.read_of_write hwrite)
  rw [loadConfig, StateT.run_bind, hfile]
  simp only [bind, Option.bind_some, hread]
  rfl

/-- A document without some fields, laid out or not, gives the configuration with the standard
values in these fields, from its text and from the file it has been written to.  The document of all
fields gives the configuration itself. -/
theorem read_documentWithout (config : Config) (dropped : Finset Field) :
    (∀ text ∈ [(config.documentWithout dropped).pretty, (config.documentWithout dropped).compact],
      read? text = some (config.reset dropped) ∧
      ∀ (fs written : FileSystem) (path : String), fs.write path text = some written →
        (loadConfig (.file path) : StateM FileSystem _).run written =
          (.ok (config.reset dropped), written)) ∧
    read? config.write = some config ∧
    ∀ (fs written : FileSystem) (path : String), fs.write path config.write = some written →
      (loadConfig (.file path) : StateM FileSystem _).run written = (.ok config, written) := by
  have hintegral := config.isIntegral_documentWithout dropped
  have htexts : ∀ text ∈
      [(config.documentWithout dropped).pretty, (config.documentWithout dropped).compact],
      read? text = some (config.reset dropped) := by
    refine List.forall_mem_cons.2 ⟨?_, List.forall_mem_singleton.2 ?_⟩
    · exact config.read?_of_document dropped (read?_pretty hintegral)
    · exact config.read?_of_document dropped (read?_compact hintegral)
  have hwhole : read? config.write = some config := by
    rw [write, ← documentWithout_empty]
    exact config.read?_of_document ∅ (read?_pretty (config.isIntegral_documentWithout ∅))
  refine ⟨fun text h => ⟨htexts text h, fun fs written path hwrite => ?_⟩, hwhole,
    fun fs written path hwrite => ?_⟩
  · exact loadConfig_of_write _ (htexts text h) hwrite
  · exact loadConfig_of_write _ hwhole hwrite

/-- The configuration for Dear ImGui is written to a file without what it keeps out and without its
prefix, and read from there with nothing kept out and no prefix. -/
theorem read_documentWithout_cimgui : ∃ written,
    FileSystem.write ⟨[], []⟩ "cimgui.json"
        (cimgui.documentWithout {.suppressed, .namePrefix}).pretty = some written ∧
      (loadConfig (.file "cimgui.json") : StateM FileSystem _).run written =
        (.ok { cimgui with suppressed := [], namePrefix := .nothing }, written) := by
  have hroot : FileSystem.locate ⟨[], []⟩ "cimgui.json" = .ok ["cimgui.json"] := by decide
  have hread := (cimgui.read_documentWithout {.suppressed, .namePrefix}).1 _ (List.mem_cons_self ..)
  have hwrite (text : String) : FileSystem.write ⟨[], []⟩ "cimgui.json" text =
      some (FileSystem.put ⟨[], []⟩ ["cimgui.json"] (.file text)) :=
    FileSystem.write_eq_some_iff.2 ⟨_, hroot, by decide, rfl⟩
  exact ⟨_, hwrite _, hread.2 _ _ _ (hwrite _)⟩

end Bindery.Config

import Workbench.Classpath.Record
import Workbench.Proofs.Json.RoundTrip
import Workbench.Proofs.Maps

/-!
The stored form of a record. Whatever texts a record holds, its stored form is read as the record:
maps come back entry by entry, and a field that is left out comes back empty.
-/

namespace Workbench

open Json

theorem mapM_entries {α : Type} {write : α → Json} {read : Json → Option α}
    {entries : List (String × α)} (h : ∀ entry ∈ entries, read (write entry.2) = some entry.2) :
    (entries.map fun (key, value) => (key, write value)).mapM
      (fun (key, value) => (read value).map fun value => (key, value)) = some entries := by
  induction entries with
  | nil => rfl
  | cons entry rest ih =>
      rw [List.map_cons, List.mapM_cons, ih fun other hother =>
        h other (List.mem_cons_of_mem _ hother)]
      simp only [h entry List.mem_cons_self]
      rfl

theorem mapOf?_toList {α : Type} {write : α → Json} {read : Json → Option α}
    (m : Std.ExtTreeMap String α)
    (h : ∀ (key : String) (value : α), m[key]? = some value → read (write value) = some value) :
    mapOf? read (.obj (m.toList.map fun (key, value) => (key, write value))) = some m := by
  have hentries (entry) (hentry : entry ∈ m.toList) : read (write entry.2) = some entry.2 :=
    h entry.1 entry.2 (Std.ExtTreeMap.mem_toList_iff_getElem?_eq_some.mp hentry)
  have hread := mapM_entries hentries
  rw [mapOf?]
  simp only [hread, bind, Option.bind, pure, foldl_insert_toList]

theorem listOf?_map {α : Type} {write : α → Json} {read : Json → Option α} (items : List α)
    (h : ∀ item ∈ items, read (write item) = some item) :
    listOf? read (.arr (items.map write)) = some items := by
  rw [listOf?]
  induction items with
  | nil => rfl
  | cons item rest ih =>
      rw [List.map_cons, List.mapM_cons, h item List.mem_cons_self,
        ih fun other hother => h other (List.mem_cons_of_mem _ hother)]
      rfl

theorem ClasspathEntry.ofJson?_toJson (e : ClasspathEntry) : ofJson? e.toJson = some e := by
  obtain ⟨kind, path⟩ := e
  cases kind <;> rfl

theorem ProjectRecord.ofJson?_toJson (r : ProjectRecord) : ofJson? r.toJson = some r := by
  obtain ⟨stamps, classpath, runtimeVersion⟩ := r
  have hstamps : mapOf? Json.text? (StampMap.toJson stamps) = some stamps :=
    mapOf?_toList stamps fun _ _ _ => rfl
  have hclasspath := listOf?_map classpath fun e _ => e.ofJson?_toJson
  cases runtimeVersion with
  | none =>
      have hfields : (ProjectRecord.toJson ⟨stamps, classpath, none⟩).fields?
          ["stamps", "classpath", "runtime_version"] =
            some [some stamps.toJson, some (.arr (classpath.map ClasspathEntry.toJson)), none] := rfl
      simp only [ofJson?, hfields, bind, Option.bind, hstamps, hclasspath, optionalText?]
      rfl
  | some version =>
      have hfields : (ProjectRecord.toJson ⟨stamps, classpath, some version⟩).fields?
          ["stamps", "classpath", "runtime_version"] =
            some [some stamps.toJson, some (.arr (classpath.map ClasspathEntry.toJson)),
              some (.str version)] := rfl
      simp only [ofJson?, hfields, bind, Option.bind, hstamps, hclasspath, optionalText?]
      rfl

namespace ClasspathRecord

theorem word32?_int {n : Nat} (h : n < 0x100000000) : word32? (.int n) = some n := by
  have hword : 0 ≤ (n : Int) ∧ (n : Int) < 0x100000000 := ⟨by omega, by omega⟩
  rw [word32?, if_pos hword, Int.toNat_natCast]

theorem version?_of_fields? {j version : Json} (h : j.fields? ["version"] = some [some version]) :
    version? j = version.word32? := by
  rw [version?, h]
  rfl

theorem ofJson?_of_fields? {j version : Json} {projects discovered : Option Json}
    {r : ClasspathRecord}
    (h : j.fields? ["version", "projects", "discovered_projects"] =
      some [some version, projects, discovered])
    (hversion : version.word32? = some r.version)
    (hprojects : orDefault? ∅ (mapOf? ProjectRecord.ofJson?) projects = some r.projects)
    (hdiscovered : orDefault? [] (listOf? fun j => j.text?.map Path.mk) discovered =
      some r.discovered) : ofJson? j = some r := by
  rw [ofJson?, h]
  simp only [bind, Option.bind, hversion, hprojects, hdiscovered]
  rfl

theorem version?_toJson {r : ClasspathRecord} (h : r.version < 0x100000000) :
    version? r.toJson = some r.version := by
  have hfields : r.toJson.fields? ["version"] = some [some (.int r.version)] := rfl
  rw [version?_of_fields? hfields, word32?_int h]

theorem ofJson?_toJson {r : ClasspathRecord} (h : r.version < 0x100000000) :
    ofJson? r.toJson = some r := by
  have hfields : r.toJson.fields? ["version", "projects", "discovered_projects"] =
      some [some (.int r.version),
        some (.obj (r.projects.toList.map fun entry => (entry.1, entry.2.toJson))),
        some (.arr (r.discovered.map fun p => .str p.text))] := rfl
  exact ofJson?_of_fields? hfields (word32?_int h)
    (mapOf?_toList r.projects fun _ project _ => project.ofJson?_toJson)
    (listOf?_map r.discovered fun _ _ => rfl)

end ClasspathRecord

/-! ### Stored forms are exact -/

theorem ClasspathEntry.exact_toJson (e : ClasspathEntry) : Exact e.toJson := by
  refine .obj fun member hmember => ?_
  rcases List.mem_cons.mp hmember with rfl | hpath
  · exact .str _
  · rw [List.mem_singleton.mp hpath]
    exact .str _

theorem StampMap.exact_toJson (stamps : StampMap) : Exact stamps.toJson := by
  refine .obj fun member hmember => ?_
  obtain ⟨stamp, -, rfl⟩ := List.mem_map.mp hmember
  exact .str _

theorem ProjectRecord.exact_toJson (r : ProjectRecord) : Exact r.toJson := by
  refine .obj fun member hmember => ?_
  rcases List.mem_append.mp hmember with hfixed | hversion
  · rcases List.mem_cons.mp hfixed with rfl | hclasspath
    · exact StampMap.exact_toJson _
    · rw [List.mem_singleton.mp hclasspath]
      refine .arr fun item hitem => ?_
      obtain ⟨e, -, rfl⟩ := List.mem_map.mp hitem
      exact e.exact_toJson
  · split at hversion
    · rw [List.mem_singleton.mp hversion]
      exact .str _
    · contradiction

namespace ClasspathRecord

theorem exact_toJson {r : ClasspathRecord} (h : r.version < 0x100000000) : Exact r.toJson := by
  refine .obj fun member hmember => ?_
  simp only [List.mem_cons, List.not_mem_nil, or_false] at hmember
  rcases hmember with rfl | rfl | rfl
  · refine .int ⟨?_, ?_⟩
    · exact Int.le_trans (by decide) (Int.natCast_nonneg _)
    · exact Int.ofNat_lt.mpr (Nat.lt_trans h (by decide))
  · refine .obj fun member hmember => ?_
    obtain ⟨project, -, rfl⟩ := List.mem_map.mp hmember
    exact project.2.exact_toJson
  · refine .arr fun item hitem => ?_
    obtain ⟨p, -, rfl⟩ := List.mem_map.mp hitem
    exact .str _

/-- The stored form of a record decodes to the record. -/
theorem decode_render {r : ClasspathRecord} (h : r.version < 0x100000000) :
    (Json.read? (Text.encode r.render)).bind ofJson? = some r := by
  rw [render, read?_pretty (exact_toJson h), Option.bind_some, ofJson?_toJson h]

theorem parse?_of_version? {bytes : List UInt8} {j : Json} (hread : Json.read? bytes = some j)
    (hversion : version? j = some currentVersion) : parse? bytes = ofJson? j := by
  simp only [parse?, hread, bind, Option.bind, hversion, if_true]

/-- The version stands first among the fields of a record, whatever fields are asked for. -/
theorem fields?_version {j : Json} {version : Option Json} {first rest : List (Option Json)}
    {names : List String} (hone : j.fields? ["version"] = some first)
    (hall : j.fields? ("version" :: names) = some (version :: rest)) : first = [version] := by
  cases j with
  | obj members =>
      rw [fields?, List.mapM_cons] at hone hall
      cases hfield : field? members "version" with
      | none => simp [hfield] at hone
      | some found =>
          simp only [hfield, List.mapM_nil, Option.pure_def, Option.bind_eq_bind, Option.bind_some,
            Option.some.injEq] at hone hall
          obtain ⟨others, -, heq⟩ := Option.bind_eq_some_iff.mp hall
          rw [Option.some.injEq, List.cons.injEq] at heq
          rw [← hone, heq.1]
  | arr items =>
      simp only [fields?] at hone hall
      split at hone
      case isTrue hlength =>
        rw [if_pos (Nat.le_trans hlength (by simp))] at hall
        cases hone
        cases items with
        | nil =>
            cases hall
            rfl
        | cons item others =>
            obtain rfl : others = [] := List.length_eq_zero_iff.mp (by simpa using hlength)
            cases hall
            rfl
      case isFalse => cases hone
  | _ => cases hone

/-- The version of a record is the one that was looked at before the rest. -/
theorem version_of_ofJson? {j : Json} {r : ClasspathRecord} {found : Nat}
    (hread : ofJson? j = some r) (hversion : version? j = some found) : r.version = found := by
  rw [ofJson?] at hread
  rw [version?] at hversion
  obtain ⟨fields, hfields, hread⟩ := Option.bind_eq_some_iff.mp hread
  obtain ⟨first, hfirst, hversion⟩ := Option.bind_eq_some_iff.mp hversion
  split at hread
  case h_1 version projects discovered =>
    cases fields?_version hfirst hfields
    obtain ⟨number, hnumber, hread⟩ := Option.bind_eq_some_iff.mp hread
    obtain ⟨_, -, hread⟩ := Option.bind_eq_some_iff.mp hread
    obtain ⟨_, -, hread⟩ := Option.bind_eq_some_iff.mp hread
    cases hread
    exact Option.some.inj (hnumber.symm.trans hversion)
  case h_2 => cases hread

theorem version_of_parse? {bytes : List UInt8} {r : ClasspathRecord}
    (h : parse? bytes = some r) : r.version = currentVersion := by
  rw [parse?] at h
  obtain ⟨j, -, hversion⟩ := Option.bind_eq_some_iff.mp h
  obtain ⟨version, hread, hcurrent⟩ := Option.bind_eq_some_iff.mp hversion
  split at hcurrent
  · rename_i heq
    exact (version_of_ofJson? hcurrent hread).trans heq
  · cases hcurrent

/-- A record of the current version is read as it was written. -/
theorem parse?_render {r : ClasspathRecord} (h : r.version = currentVersion) :
    parse? (Text.encode r.render) = some r := by
  have hcurrent : currentVersion < 0x100000000 := by decide
  have hsmall : r.version < 0x100000000 := h ▸ hcurrent
  have hversion := version?_toJson hsmall
  rw [h] at hversion
  rw [render, parse?_of_version? (read?_pretty (exact_toJson hsmall)) hversion,
    ofJson?_toJson hsmall]

end ClasspathRecord

end Workbench

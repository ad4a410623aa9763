import Mathlib.Algebra.Group.Nat.Defs
import Mathlib.Data.List.Sort
import Workbench.Classpath.Entry
import Workbench.Proofs.Json.Compact
import Workbench.Proofs.Sorting
import Workbench.Snapshot

/-!
What the keys of snapshots stand for. The bytes that are hashed for some inputs say how long each
written input is, so they can be taken apart in one way only; and as the inputs are put in order and
repetitions are left out, the bytes are those of a set. Two lists of inputs give the same bytes just
if they hold the same inputs.
-/

namespace Workbench

theorem sortUnique_eq_iff {α : Type} {cmp : α → α → Ordering} [Std.TransCmp cmp]
    [Std.LawfulEqCmp cmp] {xs ys : List α} :
    sortUnique cmp xs = sortUnique cmp ys ↔ ∀ a, a ∈ xs ↔ a ∈ ys := by
  have hmem (zs : List α) {a : α} : a ∈ sortUnique cmp zs ↔ a ∈ zs :=
    mem_sortUnique fun _ _ _ _ => Std.LawfulEqCmp.eq_of_compare
  constructor
  · intro h a
    rw [← hmem xs, h, hmem ys]
  · intro h
    have : Std.Irrefl fun a b => cmp a b = .lt :=
      ⟨fun a hlt => absurd (Std.ReflCmp.compare_self.symm.trans hlt) (by decide)⟩
    have : Std.Antisymm fun a b => cmp a b = .lt :=
      ⟨fun a b hlt hgt => absurd (hlt.symm.trans (Std.OrientedCmp.gt_of_lt hgt)) (by decide)⟩
    refine (pairwise_sortUnique xs).eq_of_mem_iff (pairwise_sortUnique ys) fun a => ?_
    rw [hmem xs, hmem ys, h]

namespace Fingerprint

/-! ### Lengths -/

theorem bigEndian_succ (count n : Nat) :
    Sha256.bigEndian (count + 1) n = UInt8.ofNat (n >>> (8 * count)) :: Sha256.bigEndian count n := by
  rw [Sha256.bigEndian, List.range_succ_eq_map, List.map_cons, List.map_map]
  congr 1
  refine List.map_congr_left fun i hi => ?_
  have hplace : count + 1 - 1 - (i + 1) = count - 1 - i := by omega
  rw [Function.comp_apply, hplace]

/-- As many bytes of a number tell what is left of it by so many bytes. -/
theorem mod_eq_of_bigEndian {count m n : Nat}
    (h : Sha256.bigEndian count m = Sha256.bigEndian count n) : m % 256 ^ count = n % 256 ^ count := by
  induction count with
  | zero => rw [Nat.pow_zero, Nat.mod_one, Nat.mod_one]
  | succ count ih =>
      rw [bigEndian_succ, bigEndian_succ] at h
      obtain ⟨hfirst, hrest⟩ := List.cons.inj h
      have hbyte := congrArg UInt8.toNat hfirst
      rw [UInt8.toNat_ofNat', UInt8.toNat_ofNat', Nat.shiftRight_eq_div_pow,
        Nat.shiftRight_eq_div_pow, Nat.pow_mul] at hbyte
      rw [Nat.mod_pow_succ, Nat.mod_pow_succ, ih hrest]
      congr 2

theorem length_littleEndian (n : Nat) : (littleEndian n).length = 8 := by
  rw [littleEndian, List.length_reverse, Sha256.bigEndian, List.length_map, List.length_range]

theorem littleEndian_inj {m n : Nat} (hm : m < UInt64.size) (hn : n < UInt64.size)
    (h : littleEndian m = littleEndian n) : m = n := by
  have hmod : m % UInt64.size = n % UInt64.size := mod_eq_of_bigEndian (List.reverse_inj.mp h)
  rwa [Nat.mod_eq_of_lt hm, Nat.mod_eq_of_lt hn] at hmod

/-! ### Sets of texts -/

/-- Whether eight bytes tell how long a text is. -/
def Fits (text : String) : Prop := text.utf8ByteSize < UInt64.size

instance (text : String) : Decidable (Fits text) := inferInstanceAs (Decidable (_ < _))

/-- How one text of a set is hashed. -/
def framed (part : String) : List UInt8 := littleEndian part.utf8ByteSize ++ Text.encode part

theorem framed_append_inj {part other : String} (hpart : Fits part) (hother : Fits other)
    {rest rest' : List UInt8} (h : framed part ++ rest = framed other ++ rest') :
    part = other ∧ rest = rest' := by
  rw [framed, framed, List.append_assoc, List.append_assoc] at h
  obtain ⟨hlength, hbehind⟩ := List.append_inj h (by rw [length_littleEndian, length_littleEndian])
  have hsize := littleEndian_inj hpart hother hlength
  have hbytes (text : String) : (Text.encode text).length = text.utf8ByteSize := rfl
  obtain ⟨hencoded, hrest⟩ := List.append_inj hbehind (by rw [hbytes, hbytes, hsize])
  have hdecoded := congrArg Text.decode? hencoded
  rw [Text.decode?_encode, Text.decode?_encode] at hdecoded
  exact ⟨Option.some.inj hdecoded, hrest⟩

theorem flatMap_framed_inj {parts others : List String} (hparts : ∀ part ∈ parts, Fits part)
    (hothers : ∀ other ∈ others, Fits other) (h : parts.flatMap framed = others.flatMap framed) :
    parts = others := by
  have hne (part : String) (rest : List UInt8) : framed part ++ rest ≠ [] := by
    intro heq
    have hlength := congrArg List.length heq
    rw [List.length_append, framed, List.length_append, length_littleEndian, List.length_nil] at hlength
    omega
  induction parts generalizing others with
  | nil =>
      cases others with
      | nil => rfl
      | cons other others => exact absurd h.symm (hne other _)
  | cons part parts ih =>
      cases others with
      | nil => exact absurd h (hne part _)
      | cons other others =>
          obtain ⟨hpart, hrests⟩ := List.forall_mem_cons.mp hparts
          obtain ⟨hother, hrests'⟩ := List.forall_mem_cons.mp hothers
          obtain ⟨rfl, hrest⟩ := framed_append_inj hpart hother h
          rw [ih hrests hrests' hrest]

/-- What is hashed tells the set of texts. -/
theorem encodeSet_eq_iff {parts others : List String} (hparts : ∀ part ∈ parts, Fits part)
    (hothers : ∀ other ∈ others, Fits other) :
    encodeSet parts = encodeSet others ↔ ∀ text, text ∈ parts ↔ text ∈ others := by
  have hmem {texts : List String} {text : String} (h : text ∈ sortUnique compare texts) :
      text ∈ texts := (mem_sortUnique fun _ _ _ _ => Std.LawfulEqCmp.eq_of_compare).mp h
  have hsorted : sortUnique compare parts = sortUnique compare others ↔
      ∀ text, text ∈ parts ↔ text ∈ others := sortUnique_eq_iff
  rw [← hsorted]
  refine ⟨fun h => ?_, fun h => by rw [encodeSet, h, encodeSet]⟩
  exact flatMap_framed_inj (fun part hpart => hparts part (hmem hpart))
    (fun other hother => hothers other (hmem hother)) h

end Fingerprint

open Fingerprint (Fits)

theorem EntryKind.ofName?_name (kind : EntryKind) : ofName? kind.name = some kind := by
  cases kind <;> rfl

namespace ClasspathEntry

variable {e f : ClasspathEntry}

theorem floatless_toJson (e : ClasspathEntry) : e.toJson.Floatless := by
  refine .obj fun member hmember => ?_
  rcases List.mem_pair.mp hmember with rfl | rfl
  · exact .str _
  · exact .str _

theorem toJson_inj (h : e.toJson = f.toJson) : e = f := by
  simp only [toJson, Json.obj.injEq, List.cons.injEq, Prod.mk.injEq, Json.str.injEq, true_and,
    and_true] at h
  obtain ⟨hname, hpath⟩ := h
  have hkind := congrArg EntryKind.ofName? hname
  rw [EntryKind.ofName?_name, EntryKind.ofName?_name, Option.some.injEq] at hkind
  calc
    e = ⟨e.kind, ⟨e.path.text⟩⟩ := rfl
    _ = ⟨f.kind, ⟨f.path.text⟩⟩ := by rw [hkind, hpath]

end ClasspathEntry

namespace SnapshotStore

/-- The bytes that are hashed for the key of some inputs. -/
def keyBytes (inputs : List Json) : List UInt8 := Fingerprint.encodeSet (inputs.map Json.compact)

theorem keyFor_eq (inputs : List Json) : keyFor inputs = .ofBytes (keyBytes inputs) := rfl

theorem keyBytes_eq_iff {inputs others : List Json}
    (hinputs : ∀ j ∈ inputs, j.Floatless ∧ Fits j.compact)
    (hothers : ∀ j ∈ others, j.Floatless ∧ Fits j.compact) :
    keyBytes inputs = keyBytes others ↔ ∀ j, j ∈ inputs ↔ j ∈ others := by
  have hfits {js : List Json} (h : ∀ j ∈ js, j.Floatless ∧ Fits j.compact) :
      ∀ part ∈ js.map Json.compact, Fits part := by
    intro part hpart
    obtain ⟨j, hj, rfl⟩ := List.mem_map.mp hpart
    exact (h j hj).2
  -- An input is found by its text, for no other input has the same one.
  have hfound {js ks : List Json} (hjs : ∀ j ∈ js, j.Floatless ∧ Fits j.compact)
      (hks : ∀ k ∈ ks, k.Floatless ∧ Fits k.compact)
      (h : ∀ text, text ∈ js.map Json.compact → text ∈ ks.map Json.compact) {j : Json}
      (hj : j ∈ js) : j ∈ ks := by
    obtain ⟨k, hk, heq⟩ := List.mem_map.mp (h _ (List.mem_map_of_mem hj))
    exact Json.compact_inj (hks k hk).1 (hjs j hj).1 heq ▸ hk
  rw [keyBytes, keyBytes, Fingerprint.encodeSet_eq_iff (hfits hinputs) (hfits hothers)]
  constructor
  · exact fun h j => ⟨hfound hinputs hothers fun text => (h text).mp,
      hfound hothers hinputs fun text => (h text).mpr⟩
  · intro h text
    rw [List.mem_map, List.mem_map]
    exact exists_congr fun j => and_congr_left fun _ => h j

theorem keyBytes_toJson_eq_iff {es fs : List ClasspathEntry}
    (hes : ∀ e ∈ es, Fits e.toJson.compact) (hfs : ∀ f ∈ fs, Fits f.toJson.compact) :
    keyBytes (es.map ClasspathEntry.toJson) = keyBytes (fs.map ClasspathEntry.toJson) ↔
      ∀ e, e ∈ es ↔ e ∈ fs := by
  have hvalues {gs : List ClasspathEntry} (h : ∀ e ∈ gs, Fits e.toJson.compact) :
      ∀ j ∈ gs.map ClasspathEntry.toJson, j.Floatless ∧ Fits j.compact := by
    intro j hj
    obtain ⟨e, he, rfl⟩ := List.mem_map.mp hj
    exact ⟨e.floatless_toJson, h e he⟩
  have hmem (gs : List ClasspathEntry) (e : ClasspathEntry) :
      e.toJson ∈ gs.map ClasspathEntry.toJson ↔ e ∈ gs :=
    List.mem_map_of_injective (fun _ _ => ClasspathEntry.toJson_inj)
  rw [keyBytes_eq_iff (hvalues hes) (hvalues hfs)]
  constructor
  · intro h e
    rw [← hmem es, h, hmem fs]
  · intro h j
    rw [List.mem_map, List.mem_map]
    exact exists_congr fun e => and_congr_left fun _ => h e

/-- A key is the hash of bytes that tell which inputs there are, in whatever order and how often
each of them. The inputs are JSON values without floating-point numbers, or the entries of a
classpath, each with its path as it is written. -/
theorem keyBytes_tell_inputs :
    (∀ inputs, keyFor inputs = .ofBytes (keyBytes inputs)) ∧
      (∀ inputs others : List Json, (∀ j ∈ inputs ++ others, j.Floatless ∧ Fits j.compact) →
        (keyBytes inputs = keyBytes others ↔ ∀ j, j ∈ inputs ↔ j ∈ others)) ∧
      ∀ es fs : List ClasspathEntry, (∀ e ∈ es ++ fs, Fits e.toJson.compact) →
        (keyBytes (es.map ClasspathEntry.toJson) = keyBytes (fs.map ClasspathEntry.toJson) ↔
          ∀ e, e ∈ es ↔ e ∈ fs) := by
  refine ⟨keyFor_eq, fun inputs others h => ?_, fun es fs h => ?_⟩
  · obtain ⟨hinputs, hothers⟩ := List.forall_mem_append.mp h
    exact keyBytes_eq_iff hinputs hothers
  · obtain ⟨hes, hfs⟩ := List.forall_mem_append.mp h
    exact keyBytes_toJson_eq_iff hes hfs

/-! Two lists of inputs in different order, and a third with the same digits in it. -/

def numbers : Json := .arr [.int 1, .int 23]

def shifted : Json := .arr [.int 12, .int 3]

def quoted : Json := .obj [("", .bool true), ("a\"b", .str "\\\n")]

theorem floatless_samples : ∀ j ∈ [numbers, shifted, quoted], j.Floatless ∧ Fits j.compact := by
  refine List.forall_mem_cons.mpr ⟨⟨.arr ?_, by decide +kernel⟩, List.forall_mem_cons.mpr
    ⟨⟨.arr ?_, by decide +kernel⟩, List.forall_mem_singleton.mpr ⟨.obj ?_, by decide +kernel⟩⟩⟩
  · simp [Json.Floatless.int]
  · simp [Json.Floatless.int]
  · simp [Json.Floatless.str, Json.Floatless.bool]

def archive : ClasspathEntry := ⟨.jar, ⟨"/lib/a.jar"⟩⟩

def classDir : ClasspathEntry := ⟨.classDir, ⟨"/out"⟩⟩

/-- The same directory, but not written alike. -/
def slashedDir : ClasspathEntry := ⟨.classDir, ⟨"//out/"⟩⟩

theorem keyBytes_tell_inputs_samples :
    keyBytes [numbers, quoted] = keyBytes [quoted, numbers, quoted] ∧
      keyBytes [numbers, quoted] ≠ keyBytes [shifted, quoted] ∧
      keyBytes ([archive, classDir].map ClasspathEntry.toJson) =
        keyBytes ([classDir, archive, classDir].map ClasspathEntry.toJson) := by
  have hsamples {js : List Json} (h : js ⊆ [numbers, shifted, quoted]) :
      ∀ j ∈ js, j.Floatless ∧ Fits j.compact := fun j hj => floatless_samples j (h hj)
  have hentries : ∀ e ∈ [archive, classDir] ++ [classDir, archive, classDir],
      Fits e.toJson.compact := by decide +kernel
  refine ⟨(keyBytes_tell_inputs.2.1 _ _ (hsamples (by simp))).mpr fun j => ?_, fun heq => ?_,
    (keyBytes_tell_inputs.2.2 _ _ hentries).mpr fun e => ?_⟩
  · simp only [List.mem_cons, List.not_mem_nil, or_false]
    tauto
  · have h := (keyBytes_tell_inputs.2.1 _ _ (hsamples (by simp))).mp heq numbers
    simp [numbers, shifted, quoted] at h
  · simp only [List.mem_cons, List.not_mem_nil, or_false]
    tauto

/-- Entries that have the same path are told apart if it is not written alike. -/
theorem not_keyBytes_tell_paths : ¬ ∀ es fs : List ClasspathEntry,
    (∀ e ∈ es ++ fs, Fits e.toJson.compact) →
      (keyBytes (es.map ClasspathEntry.toJson) = keyBytes (fs.map ClasspathEntry.toJson) ↔
        (∀ e ∈ es, ∃ f ∈ fs, e.kind = f.kind ∧ e.path.same f.path) ∧
          ∀ f ∈ fs, ∃ e ∈ es, e.kind = f.kind ∧ e.path.same f.path) := by
  intro h
  have hclass : ∀ e ∈ [classDir], Fits e.toJson.compact := by decide +kernel
  have hslashed : ∀ e ∈ [slashedDir], Fits e.toJson.compact := by decide +kernel
  have heq := (h [classDir] [slashedDir] (List.forall_mem_append.mpr ⟨hclass, hslashed⟩)).mpr
    (by decide)
  have hmem := (keyBytes_toJson_eq_iff hclass hslashed).mp heq classDir
  exact absurd hmem (by decide)

end SnapshotStore

end Workbench

import LibUdp.Cli.Collection
import LibUdp.Text.Decimals

/-!
# Collections of doubles

`to_string` prints doubles with six decimals, so `parse` does not give every array or map of doubles
back. It gives one that is printed the same, so that the next round gives it back.
-/

namespace Cli

open Text

/-! ### Elements -/

lemma mem_ofDouble {x : Double} {c : Char} (h : c ∈ ofDouble x) :
    c ∈ "-.infa".toList ∨ c.isDigit = true := by
  have hinf : "inf".toList ⊆ "-.infa".toList := by decide
  have hnan : "nan".toList ⊆ "-.infa".toList := by decide
  rw [ofDouble_eq, List.mem_append, sign, unsigned] at h
  rcases h with h | h
  · split_ifs at h <;> simp_all
  · split_ifs at h
    · rcases mem_fixed h with rfl | h
      · exact .inl (by decide)
      · exact .inr h
    · exact .inl (hinf h)
    · exact .inl (hnan h)

/-- What the items of an array or a map are made of. -/
lemma not_mem_ofDouble {x : Double} {c : Char} (hword : c ∉ "-.infa".toList)
    (hdigit : c.isDigit = false) : c ∉ ofDouble x := by
  intro h
  rcases mem_ofDouble h with h | h
  · exact hword h
  · rw [hdigit] at h
    cases h

lemma ofDouble_ne_nil (x : Double) : ofDouble x ≠ [] := by
  obtain ⟨_, _, h⟩ := exists_rereads x.pattern_lt
  obtain ⟨c, s, hs, -⟩ := h.bare
  rw [ofDouble_eq, hs]
  exact List.append_ne_nil_of_right_ne_nil _ (List.cons_ne_nil c s)

lemma trim_ofDouble (x : Double) : trim (ofDouble x) = ofDouble x := by
  have hblank : ∀ c ∈ ofDouble x, isBlank c = false := by
    intro c hc
    by_contra hb
    simp only [isBlank, Bool.not_eq_false, Bool.or_eq_true, decide_eq_true_eq] at hb
    rcases hb with rfl | rfl
    · exact not_mem_ofDouble (by decide) rfl hc
    · exact not_mem_ofDouble (by decide) rfl hc
  rw [trim_eq_self_iff]
  exact ⟨fun c hc => hblank c (List.mem_of_mem_head? hc),
    fun c hc => hblank c (List.mem_of_mem_getLast? hc)⟩

/-- What a double is read as when it has been printed. -/
def reread (x : Double) : Double := ((stod (ofDouble x)).toOption.map Prod.fst).getD x

lemma reread_spec (x : Double) : stod (ofDouble x) = .ok (reread x, (ofDouble x).length) ∧
    ofDouble (reread x) = ofDouble x ∧ x.Near (reread x) := by
  obtain ⟨y, hstod, hsame, hnear⟩ := exists_stod_ofDouble x
  have hreread : reread x = y := by
    rw [reread, hstod]
    rfl
  rw [hreread]
  exact ⟨hstod, hsame, hnear⟩

lemma writeItem_reread (x : Double) :
    ScalarType.writeItem .double (reread x) = ScalarType.writeItem .double x := (reread_spec x).2.1

/-- A double that has been read from what was printed comes back. -/
lemma clean_reread (x : Double) : ScalarType.Clean .double (reread x) := by
  obtain ⟨hstod, hsame, -⟩ := reread_spec x
  refine ⟨not_mem_ofDouble (by decide) rfl, ?_⟩
  rw [ScalarType.writeItem, trim_ofDouble, hsame, ScalarType.readItem, hstod]
  rfl

/-! ### Arrays and maps -/

/-- Every array of doubles is read from its text as one of the same length that has the same text
and whose elements are less than a millionth away. -/
theorem parse_array_toString_double (a : ArrayValue Double) : ∃ b : ArrayValue Double,
    ArrayValue.parse .double (ArrayValue.toString .double a) = some b ∧
      ArrayValue.toString .double b = ArrayValue.toString .double a ∧
      List.Forall₂ Double.Near a.values b.values := by
  have hsame : ArrayValue.toString .double ⟨a.values.map reread⟩ =
      ArrayValue.toString .double a := by
    rw [ArrayValue.toString, List.map_map]
    exact congrArg (join ',') (List.map_congr_left fun x _ => writeItem_reread x)
  refine ⟨⟨a.values.map reread⟩, ?_, hsame, ?_⟩
  · rw [← hsame]
    apply ArrayValue.parse_toString_of_clean
    · intro x hx
      obtain ⟨y, -, rfl⟩ := List.mem_map.mp hx
      exact clean_reread y
    · intro hlast
      obtain ⟨x, -, hx⟩ := List.mem_map.mp (List.mem_of_getLast? hlast)
      exact ofDouble_ne_nil x hx
  · rw [List.forall₂_map_right_iff]
    exact List.forall₂_same.mpr fun x _ => (reread_spec x).2.2

/-- The map with every value read from its text. -/
def rereadMap (m : MapValue Double) : MapValue Double where
  values := (m.entries.map fun e => (e.1, reread e.2)).foldl (fun m e => m.insert e.1 e.2) ∅

lemma entries_rereadMap (m : MapValue Double) :
    (rereadMap m).entries = m.entries.map fun e => (e.1, reread e.2) :=
  MapValue.entries_foldl_insert _ (.refl _) (List.pairwise_map.mpr m.pairwise_entries)

lemma lookup_rereadMap (m : MapValue Double) (key : Text) :
    (rereadMap m).values.lookup key = (m.values.lookup key).map reread := by
  apply Option.ext
  intro y
  rw [← MapValue.mem_entries, entries_rereadMap, List.mem_map, Option.map_eq_some_iff]
  constructor
  · rintro ⟨⟨_, x⟩, hx, heq⟩
    cases heq
    exact ⟨x, MapValue.mem_entries.mp hx, rfl⟩
  · rintro ⟨x, hx, rfl⟩
    exact ⟨(key, x), MapValue.mem_entries.mpr hx, rfl⟩

lemma toString_rereadMap (m : MapValue Double) :
    MapValue.toString .double (rereadMap m) = MapValue.toString .double m := by
  rw [MapValue.toString, entries_rereadMap, List.map_map]
  refine congrArg (join ',') (List.map_congr_left fun e _ => ?_)
  exact congrArg (e.1 ++ '=' :: ·) (writeItem_reread e.2)

/-- A map of doubles whose keys have no separators and no blanks at their ends is read from its text
as one with the same keys that has the same text and whose values are less than a millionth away. -/
theorem parse_map_toString_double (m : MapValue Double)
    (hkeys : ∀ key ∈ m.values, ',' ∉ key ∧ '=' ∉ key ∧ Trimmed key) : ∃ m' : MapValue Double,
    MapValue.parse .double (MapValue.toString .double m) = some m' ∧
      MapValue.toString .double m' = MapValue.toString .double m ∧
      ∀ key, Option.Rel Double.Near (m.values.lookup key) (m'.values.lookup key) := by
  refine ⟨rereadMap m, ?_, toString_rereadMap m, fun key => ?_⟩
  · rw [← toString_rereadMap]
    apply MapValue.parse_toString_of_clean
    · intro key hkey
      obtain ⟨y, hy⟩ := Finmap.mem_iff.mp hkey
      rw [lookup_rereadMap, Option.map_eq_some_iff] at hy
      obtain ⟨x, hx, -⟩ := hy
      exact hkeys key (Finmap.mem_of_lookup_eq_some hx)
    · intro key y hy
      rw [lookup_rereadMap, Option.map_eq_some_iff] at hy
      obtain ⟨x, -, rfl⟩ := hy
      exact clean_reread x
  · rw [lookup_rereadMap]
    cases m.values.lookup key with
    | none => exact .none
    | some x => exact .some (reread_spec x).2.2

/-- One value is below half a millionth. -/
theorem parse_map_toString_double_rate : ∃ m' : MapValue Double,
    MapValue.parse .double (MapValue.toString .double
      ⟨(∅ : Finmap _).insert "rate".toList (ofMagnitude false 0x3E8421F5F40D8376)⟩) = some m' ∧
      MapValue.toString .double m' = MapValue.toString .double
        ⟨(∅ : Finmap _).insert "rate".toList (ofMagnitude false 0x3E8421F5F40D8376)⟩ := by
  obtain ⟨m', hparse, hsame, -⟩ := parse_map_toString_double
    ⟨(∅ : Finmap _).insert "rate".toList (ofMagnitude false 0x3E8421F5F40D8376)⟩ (by
      intro key hkey
      obtain rfl : key = "rate".toList := by
        simpa [Finmap.mem_insert, Finmap.notMem_empty] using hkey
      exact ⟨by decide, by decide, trim_eq_self_iff.mp (by decide)⟩)
  exact ⟨m', hparse, hsame⟩

end Cli

import LinkedViews.Proofs.Json.RoundTrip

/-! How deep brackets nest in a value. What is written of an exact value is read with as many brackets
left to open as it has inside each other; with fewer it is malformed, from the first item or member on
that goes too deep. -/
namespace LinkedViews.Json

variable {α σ : Type}

mutual

/-- The number of brackets around the innermost place, those of the value included. -/
def depth : Json → Nat
  | array items => depthItems items + 1
  | object members => depthMembers members + 1
  | _ => 0

def depthItems : List Json → Nat
  | [] => 0
  | item :: items => max item.depth (depthItems items)

def depthMembers : List (String × Json) → Nat
  | [] => 0
  | (_, value) :: members => max value.depth (depthMembers members)

end

theorem depthItems_le_iff {items : List Json} {n : Nat} :
    depthItems items ≤ n ↔ ∀ v ∈ items, v.depth ≤ n := by
  induction items with
  | nil => simp [depthItems]
  | cons v items ih => simp [depthItems, ih]

theorem depthMembers_le_iff {members : List (String × Json)} {n : Nat} :
    depthMembers members ≤ n ↔ ∀ m ∈ members, m.2.depth ≤ n := by
  induction members with
  | nil => simp [depthMembers]
  | cons m members ih => simp [depthMembers, ih]

/-- A value that its text says exactly: all numbers are integers of 64 bits, and the keys of each
object ascend. -/
inductive Exact : Json → Prop
  | null : Exact .null
  | bool : Exact (.bool b)
  | integer (word : FitsWord n) : Exact (.integer n)
  | string : Exact (.string s)
  | array (items : ∀ v ∈ values, Exact v) : Exact (.array values)
  | object (ascending : members.Pairwise fun m m' => m.1 < m'.1)
      (values : ∀ m ∈ members, Exact m.2) : Exact (.object members)

theorem Exact.legible {v : Json} (exact : v.Exact) {n : Nat} (shallow : v.depth ≤ n) :
    Legible n v := by
  induction exact generalizing n with
  | null => exact .null
  | bool => exact .bool
  | integer word => exact .integer word
  | string => exact .string
  | @array values _ ih =>
    cases n with
    | zero => exact absurd shallow (Nat.not_succ_le_zero _)
    | succ n =>
      have items := depthItems_le_iff.mp (Nat.le_of_succ_le_succ shallow)
      exact .array fun v member => ih v member (items v member)
  | @object members ascending _ ih =>
    cases n with
    | zero => exact absurd shallow (Nat.not_succ_le_zero _)
    | succ n =>
      have values := depthMembers_le_iff.mp (Nat.le_of_succ_le_succ shallow)
      exact .object ascending fun m member => ih m member (values m member)

theorem Exact.opens {v : Json} (exact : v.Exact) :
    ∃ b tail, Utf8.encode v.write = b :: tail ∧ Opens b := by
  obtain ⟨b, tail, eq, opens, -⟩ := opens_write (exact.legible (Nat.le_refl v.depth))
  exact ⟨b, tail, eq, opens⟩

/-- The first of those that go too deep. -/
theorem exists_first_deep {l : List α} {size : α → Nat} {n : Nat} (deep : ¬∀ a ∈ l, size a ≤ n) :
    ∃ front a back, l = front ++ a :: back ∧ (∀ b ∈ front, size b ≤ n) ∧ n < size a := by
  induction l with
  | nil => simp at deep
  | cons a l ih =>
    by_cases large : n < size a
    · exact ⟨[], a, l, rfl, by simp, large⟩
    · have later : ¬∀ b ∈ l, size b ≤ n := fun small =>
        deep (List.forall_mem_cons.mpr ⟨Nat.le_of_not_lt large, small⟩)
      obtain ⟨front, b, back, rfl, small, large'⟩ := ih later
      exact ⟨a :: front, b, back, rfl,
        List.forall_mem_cons.mpr ⟨Nat.le_of_not_lt large, small⟩, large'⟩

/-- The reader finds the text malformed, whatever stands behind it. -/
def Refuses (read : Reader α) (text : List Char) : Prop :=
  ∀ rest, read (Utf8.encode text ++ rest) = .error .malformed

section Items

variable {item : Reader Json} {front : List Json} {v : Json}
  (reads : ∀ w ∈ front, ItemReads item w w) (refuses : Refuses item v.write) (back : List Json)
  (rest : Bytes)

include reads refuses

theorem itemsFrom_refuses (opens : ∃ b tail, Utf8.encode v.write = b :: tail ∧ Opens b)
    (bound : Bytes) (seen : List Json) :
    itemsFrom item bound false seen (Utf8.encode (writeItems (front ++ v :: back)) ++ rest) =
      .error .malformed := by
  induction front generalizing bound seen with
  | nil =>
    cases bound with
    | nil => rfl
    | cons c bound =>
      obtain ⟨b, tail, eq, opens⟩ := opens
      have refused := refuses (Utf8.encode (writeItems back) ++ rest)
      rw [List.nil_append, encode_writeItems_cons, itemsFrom]
      rw [eq, List.cons_append] at refused ⊢
      simp only [nextItem_comma opens, refused, bind, Except.bind]
  | cons w front ih =>
    cases bound with
    | nil => rfl
    | cons c bound =>
      obtain ⟨⟨b, tail, eq, opens_w⟩, reads_w⟩ := reads w List.mem_cons_self
      have read := reads_w _ (ends_writeItems (front ++ v :: back) rest)
      have later := ih (fun u member => reads u (List.mem_cons_of_mem w member)) bound (w :: seen)
      rw [List.cons_append, encode_writeItems_cons]
      rw [eq, List.cons_append] at read ⊢
      rw [itemsFrom_next (nextItem_comma opens_w _) read, later]

theorem readItems_refuses (opens : ∃ b tail, Utf8.encode v.write = b :: tail ∧ Opens b) :
    ∃ tail, Utf8.encode (array (front ++ v :: back)).write ++ rest = 0x5B :: tail ∧
      readItems item tail = .error .malformed := by
  cases front with
  | nil =>
    refine ⟨Utf8.encode v.write ++ (Utf8.encode (writeItems back) ++ rest), ?_, ?_⟩
    · simp [write, Utf8.encodeChar]
    · obtain ⟨b, tail, eq, opens⟩ := opens
      have refused := refuses (Utf8.encode (writeItems back) ++ rest)
      rw [readItems, itemsFrom]
      rw [eq, List.cons_append] at refused ⊢
      simp only [nextItem_first opens, refused, bind, Except.bind]
  | cons w front =>
    refine ⟨Utf8.encode w.write ++ (Utf8.encode (writeItems (front ++ v :: back)) ++ rest), ?_, ?_⟩
    · simp [write, Utf8.encodeChar]
    · obtain ⟨⟨b, tail, eq, opens_w⟩, reads_w⟩ := reads w List.mem_cons_self
      have read := reads_w _ (ends_writeItems (front ++ v :: back) rest)
      have others : ∀ u ∈ front, ItemReads item u u := fun u member =>
        reads u (List.mem_cons_of_mem w member)
      rw [readItems]
      rw [eq, List.cons_append] at read ⊢
      rw [itemsFrom_next (nextItem_first opens_w _) read]
      exact itemsFrom_refuses others refuses back rest opens _ [w]

end Items

section Members

variable {member : σ → String → Reader σ} {state last : σ}
  {front : List (String × List Char)} {m : String × List Char}
  (reads : MembersRead member state front last)
  (refuses : Refuses (fun input => member last m.1 (0x3A :: input)) m.2)
  (back : List (String × List Char)) (rest : Bytes)

include reads refuses

theorem membersFrom_refuses (bound : Bytes) : membersFrom member bound false state
    (Utf8.encode (laterMembers (front ++ m :: back)) ++ rest) = .error .malformed := by
  induction front generalizing bound state with
  | nil =>
    cases bound with
    | nil => rfl
    | cons c bound =>
      obtain rfl := reads
      have refused := refuses (Utf8.encode (laterMembers back) ++ rest)
      rw [List.nil_append, encode_laterMembers_cons, encode_member, membersFrom]
      simp only [nextMember_comma, readText_escaped, refused, bind, Except.bind]
  | cons m' front ih =>
    cases bound with
    | nil => rfl
    | cons c bound =>
      obtain ⟨next, first, others⟩ := reads
      have read := first _ (ends_laterMembers (front ++ m :: back) rest)
      rw [List.cons_append, encode_laterMembers_cons, encode_member,
        membersFrom_next (nextMember_comma _) (readText_escaped m'.1 _) read, ih others bound]

theorem readMembers_refuses : ∃ tail,
    Utf8.encode (writeRecord (front ++ m :: back)) ++ rest = 0x7B :: tail ∧
      readMembers member state tail = .error .malformed := by
  cases front with
  | nil =>
    obtain rfl := reads
    refine ⟨Utf8.encode (writeText m.1 ++ ':' :: m.2) ++
      (Utf8.encode (laterMembers back) ++ rest), ?_, ?_⟩
    · simp [writeRecord_cons, Utf8.encodeChar]
    · have refused := refuses (Utf8.encode (laterMembers back) ++ rest)
      rw [encode_member, readMembers, membersFrom]
      simp only [nextMember_first, readText_escaped, refused, bind, Except.bind]
  | cons m' front =>
    obtain ⟨next, first, others⟩ := reads
    refine ⟨Utf8.encode (writeText m'.1 ++ ':' :: m'.2) ++
      (Utf8.encode (laterMembers (front ++ m :: back)) ++ rest), ?_, ?_⟩
    · simp [writeRecord_cons, Utf8.encodeChar]
    · have read := first _ (ends_laterMembers (front ++ m :: back) rest)
      rw [encode_member, readMembers,
        membersFrom_next (nextMember_first _) (readText_escaped m'.1 _) read]
      exact membersFrom_refuses others refuses back rest _

end Members

/-- By induction on the value: what goes too deep is in an item or a member that goes too deep with one
bracket less left to open, and those before the first such one are read. -/
theorem readValue_of_deep {v : Json} (exact : v.Exact) {n : Nat} (deep : n < v.depth) :
    Refuses (readValue n) v.write := by
  intro rest
  induction exact generalizing n rest with
  | null => exact absurd deep (Nat.not_lt_zero n)
  | bool => exact absurd deep (Nat.not_lt_zero n)
  | integer => exact absurd deep (Nat.not_lt_zero n)
  | string => exact absurd deep (Nat.not_lt_zero n)
  | @array values exact ih =>
    cases n with
    | zero =>
      obtain ⟨tail, eq⟩ : ∃ tail, Utf8.encode (array values).write ++ rest = 0x5B :: tail := by
        cases values <;> exact ⟨_, by rw [write]; rfl⟩
      rw [eq, readValue_array_zero]
    | succ n =>
      have large : ¬∀ v ∈ values, v.depth ≤ n := fun small =>
        Nat.not_le_of_lt (Nat.lt_of_succ_lt_succ deep) (depthItems_le_iff.mpr small)
      obtain ⟨front, v, back, rfl, small, large⟩ := exists_first_deep large
      have reads : ∀ w ∈ front, ItemReads (readValue n) w w := fun w member => by
        have exact_w := exact w (by simp [member])
        exact ⟨exact_w.opens, readValue_write (exact_w.legible (small w member))⟩
      obtain ⟨tail, eq, refused⟩ := readItems_refuses reads (ih v (by simp) large) back rest
        (exact v (by simp)).opens
      rw [eq, readValue_array, refused]
      rfl
  | @object members ascending exact ih =>
    cases n with
    | zero =>
      obtain ⟨tail, eq⟩ : ∃ tail, Utf8.encode (object members).write ++ rest = 0x7B :: tail := by
        cases members <;> exact ⟨_, by rw [write]; rfl⟩
      rw [eq, readValue_object_zero]
    | succ n =>
      have large : ¬∀ m ∈ members, m.2.depth ≤ n := fun small =>
        Nat.not_le_of_lt (Nat.lt_of_succ_lt_succ deep) (depthMembers_le_iff.mpr small)
      obtain ⟨front, m, back, rfl, small, large⟩ := exists_first_deep large
      have reads : MembersRead (readValueMember n) [] (front.map fun m => (m.1, m.2.write)) front :=
        membersRead_values
          (fun m' member => readValue_write ((exact m' (by simp [member])).legible (small m' member)))
          (List.pairwise_append.mp ascending).1
      let written (m : String × Json) : String × List Char := (m.1, m.2.write)
      have refuses : Refuses (fun input => readValueMember n front (written m).1 (0x3A :: input))
          (written m).2 := by
        intro rest
        simp only [readValueMember, expectColon_cons, written, ih m (by simp) large rest, bind,
          Except.bind]
      obtain ⟨tail, eq, refused⟩ := readMembers_refuses reads refuses (back.map written) rest
      rw [write_object, List.map_append, List.map_cons, eq, readValue_object, refused]
      rfl

end LinkedViews.Json

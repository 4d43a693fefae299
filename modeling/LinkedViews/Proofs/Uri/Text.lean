import LinkedViews.Proofs.Text.Ascii
import LinkedViews.Proofs.Uri.Scheme

/-! Identifiers and their texts. No part of an identifier that was read holds a mark that would end it,
so the text of the whole tells its parts apart. -/
namespace LinkedViews

open Text LinkedViews.Uri.Path

namespace Uri

/-- What stands before the first mark tells two texts apart. -/
theorem append_cons_inj_of_free {c : Char} {head head' rest rest' : List Char} (free : c ∉ head)
    (free' : c ∉ head') (eq : head ++ c :: rest = head' ++ c :: rest') :
    head = head' ∧ rest = rest' := by
  have same := congrArg (cut c) eq
  rw [cut_append_cons free, cut_append_cons free'] at same
  exact Prod.mk.inj (Option.some.inj same)

theorem append_marked_inj {mark : Char} {head head' : List Char} {tail tail' : Option String}
    (free : mark ∉ head) (free' : mark ∉ head')
    (eq : head ++ marked mark tail = head' ++ marked mark tail') : head = head' ∧ tail = tail' := by
  cases tail with
  | none =>
    cases tail' with
    | none => simpa [marked] using eq
    | some text =>
      simp only [marked, List.append_nil] at eq
      exact absurd (by simp [eq]) free
  | some text =>
    cases tail' with
    | none =>
      simp only [marked, List.append_nil] at eq
      exact absurd (by simp [← eq]) free'
    | some text' =>
      obtain ⟨same, texts⟩ := append_cons_inj_of_free free free' eq
      exact ⟨same, congrArg _ (String.toList_inj.mp texts)⟩

/-- The marks that end an authority, or its credentials. -/
def partMarks : List Char := ['/', '?', '#', '@']

def hostMarks : List Char := partMarks ++ [':', '[']

def bracketMarks : List Char := partMarks ++ [']']

/-- An address in brackets, or a name without brackets and colons. -/
def IsHost (host : List Char) : Prop :=
  (∃ inner, host = '[' :: inner ++ [']'] ∧ ∀ c ∈ inner, c ∉ bracketMarks) ∨
    ∀ c ∈ host, c ∉ hostMarks

theorem host_port_inj {host host' : List Char} {port port' : Option String} (isHost : IsHost host)
    (isHost' : IsHost host') (eq : host ++ marked ':' port = host' ++ marked ':' port') :
    host = host' ∧ port = port' := by
  have unlike {inner name : List Char} {port port' : Option String}
      (free : ∀ c ∈ name, c ∉ hostMarks)
      (eq : '[' :: inner ++ [']'] ++ marked ':' port = name ++ marked ':' port') : False := by
    cases name with
    | nil => cases port' <;> simp [marked] at eq
    | cons c name =>
      obtain ⟨rfl, -⟩ := List.cons.inj eq
      exact free '[' List.mem_cons_self (by decide)
  rcases isHost with ⟨inner, rfl, free⟩ | free <;> rcases isHost' with ⟨inner', rfl, free'⟩ | free'
  · have closed {inner : List Char} (free : ∀ c ∈ inner, c ∉ bracketMarks) :
        ']' ∉ '[' :: inner := by
      intro member
      rcases List.mem_cons.mp member with bracket | inside
      · revert bracket
        decide
      · exact free ']' inside (by decide)
    rw [List.append_assoc, List.append_assoc] at eq
    obtain ⟨same, ports⟩ := append_cons_inj_of_free (closed free) (closed free') eq
    exact ⟨by rw [same], (append_marked_inj (by simp) (by simp) ports).2⟩
  · exact (unlike free' eq).elim
  · exact (unlike free eq.symm).elim
  · refine append_marked_inj (fun member => ?_) (fun member => ?_) eq
    · exact free ':' member (by decide)
    · exact free' ':' member (by decide)

/-- What a reader leaves between the slashes. -/
structure Named (a : Authority) : Prop where
  credentials : ∀ c ∈ a.credentials.toList, c ∉ partMarks
  host : IsHost a.host.toList

def portText (a : Authority) : Option String := a.port.map fun port => String.ofList (Decimal.digits port)

theorem authority_text_eq (a : Authority) : a.text =
    (if a.credentials = "" then [] else a.credentials.toList ++ ['@']) ++
      (a.host.toList ++ marked ':' (portText a)) := by
  cases port : a.port <;> simp [Authority.text, portText, marked, port]

theorem not_mem_digits {c : Char} (mark : Decimal.isDigit c = false) (n : Nat) :
    c ∉ Decimal.digits n := by
  intro member
  rw [Decimal.isDigit_of_mem_digits member] at mark
  contradiction

theorem IsHost.not_mem {host : List Char} (isHost : IsHost host) {c : Char}
    (mark : c ∈ partMarks) : c ∉ host := by
  rcases isHost with ⟨inner, rfl, free⟩ | free
  · intro member
    simp only [List.cons_append, List.mem_cons, List.mem_append, List.not_mem_nil, or_false] at member
    rcases member with rfl | inside | rfl
    · revert mark
      decide
    · exact free c inside (List.mem_append_left [']'] mark)
    · revert mark
      decide
  · exact fun member => free c member (List.mem_append_left [':', '['] mark)

theorem Named.host_port_not_mem {a : Authority} (named : Named a) {c : Char}
    (mark : c ∈ partMarks) : c ∉ a.host.toList ++ marked ':' (portText a) := by
  intro member
  rcases List.mem_append.mp member with inHost | inPort
  · exact named.host.not_mem mark inHost
  · have other : c ≠ ':' ∧ Decimal.isDigit c = false := by
      simp only [partMarks, List.mem_cons, List.not_mem_nil, or_false] at mark
      rcases mark with rfl | rfl | rfl | rfl <;> decide
    cases port : a.port with
    | none => simp [portText, port, marked] at inPort
    | some n => simp [portText, port, marked, other.1, not_mem_digits other.2 n] at inPort

theorem Named.text_not_mem {a : Authority} (named : Named a) {c : Char} (mark : c ∈ ['/', '?', '#']) :
    c ∉ a.text := by
  have among : c ∈ partMarks := List.mem_append_left ['@'] mark
  rw [authority_text_eq, List.mem_append, not_or]
  refine ⟨?_, named.host_port_not_mem among⟩
  split
  · simp
  · intro member
    rcases List.mem_append.mp member with inside | at_sign
    · exact named.credentials c inside among
    · obtain rfl := List.mem_singleton.mp at_sign
      revert mark
      decide

/-- The text of an authority tells its parts apart. -/
theorem authority_text_inj {a a' : Authority} (named : Named a) (named' : Named a')
    (eq : a.text = a'.text) : a = a' := by
  have free {a : Authority} (named : Named a) : '@' ∉ a.credentials.toList :=
    fun member => named.credentials '@' member (by decide)
  have unsigned := named.host_port_not_mem (c := '@') (by decide)
  have unsigned' := named'.host_port_not_mem (c := '@') (by decide)
  have parts : a.credentials = a'.credentials ∧
      a.host.toList ++ marked ':' (portText a) = a'.host.toList ++ marked ':' (portText a') := by
    rw [authority_text_eq, authority_text_eq] at eq
    by_cases none : a.credentials = "" <;> by_cases none' : a'.credentials = ""
    · simpa [none, none'] using eq
    · rw [if_pos none, if_neg none', List.nil_append] at eq
      exact absurd (by simp [eq]) unsigned
    · rw [if_neg none, if_pos none', List.nil_append] at eq
      exact absurd (by simp [← eq]) unsigned'
    · rw [if_neg none, if_neg none', List.append_assoc, List.append_assoc] at eq
      obtain ⟨same, rest⟩ := append_cons_inj_of_free (free named) (free named') eq
      exact ⟨String.toList_inj.mp same, rest⟩
  obtain ⟨same, rest⟩ := parts
  obtain ⟨hosts, ports⟩ := host_port_inj named.host named'.host rest
  have numbers : a.port = a'.port := by
    refine Option.map_injective (fun n n' texts => ?_) ports
    rw [← Decimal.value_digits n, ← Decimal.value_digits n', String.ofList_injective texts]
  cases a
  cases a'
  obtain rfl := same
  obtain rfl := String.toList_inj.mp hosts
  obtain rfl := numbers
  rfl

/-- What a reader of identifiers leaves: parts without the marks that follow them, and a path that
neither is taken for an authority nor begins with the step that sets it off from one. -/
structure Normal (u : Uri) : Prop where
  scheme : IsScheme u.scheme.toList
  authority : ∀ a, u.authority = some a →
    Named a ∧ (u.path.toList = [] ∨ ∃ rest, u.path.toList = '/' :: rest)
  path : ∀ c ∈ u.path.toList, c ≠ '#' ∧ c ≠ '?'
  unstepped : ∀ rest, u.path.toList ≠ '/' :: '.' :: '/' :: rest
  query : ∀ text, u.query = some text → '#' ∉ text.toList

theorem takeWhile_before_path {text path : List Char} (free : '/' ∉ text)
    (rooted : path = [] ∨ ∃ rest, path = '/' :: rest) :
    (text ++ path).takeWhile (· ≠ '/') = text := by
  have inside : ∀ c ∈ text, decide (c ≠ '/') = true := by
    intro c member
    have differ : c ≠ '/' := by
      rintro rfl
      exact free member
    simpa using differ
  rw [List.takeWhile_append_of_pos inside]
  rcases rooted with rfl | ⟨rest, rfl⟩ <;> simp

theorem hierarchy_of_none {u : Uri} (none : u.authority = none) :
    Slashed u.path.toList ∧ u.hierarchy = '/' :: '.' :: u.path.toList ∨
      ¬Slashed u.path.toList ∧ u.hierarchy = u.path.toList := by
  unfold hierarchy
  rw [none]
  split
  next => contradiction
  next rest _ eq => exact .inl ⟨⟨rest, eq⟩, by rw [eq]⟩
  next unslashed => exact .inr ⟨fun ⟨rest, eq⟩ => unslashed rest eq, rfl⟩

theorem hierarchy_of_some {u : Uri} {a : Authority} (some : u.authority = some a) :
    u.hierarchy = '/' :: '/' :: (a.text ++ u.path.toList) := by
  unfold hierarchy
  rw [some]
  rfl

/-- What follows the scheme tells authority and path apart. -/
theorem hierarchy_inj {u v : Uri} (normal : Normal u) (normal' : Normal v)
    (eq : u.hierarchy = v.hierarchy) : u.authority = v.authority ∧ u.path = v.path := by
  have unlike {u v : Uri} {a : Authority} (authority : u.authority = some a)
      (none : v.authority = none) (eq : u.hierarchy = v.hierarchy) : False := by
    rw [hierarchy_of_some authority] at eq
    rcases hierarchy_of_none none with ⟨-, own⟩ | ⟨single, own⟩
    · rw [own] at eq
      simp at eq
    · exact single ⟨_, (eq.trans own).symm⟩
  have step {u v : Uri} (normal : Normal v) (slashed : Slashed u.path.toList)
      (eq : '/' :: '.' :: u.path.toList = v.path.toList) : False := by
    obtain ⟨rest, slashes⟩ := slashed
    exact normal.unstepped ('/' :: rest) (by rw [← eq, slashes])
  cases authority : u.authority with
  | none =>
    cases authority' : v.authority with
    | some a => exact (unlike authority' authority eq.symm).elim
    | none =>
      refine ⟨rfl, String.toList_inj.mp ?_⟩
      rcases hierarchy_of_none authority with ⟨slashed, own⟩ | ⟨-, own⟩ <;>
        rcases hierarchy_of_none authority' with ⟨slashed', own'⟩ | ⟨-, own'⟩ <;>
        rw [own, own'] at eq
      · simpa using eq
      · exact (step normal' slashed eq).elim
      · exact (step normal slashed' eq.symm).elim
      · exact eq
  | some a =>
    cases authority' : v.authority with
    | none => exact (unlike authority authority' eq).elim
    | some a' =>
      obtain ⟨named, rooted⟩ := normal.authority a authority
      obtain ⟨named', rooted'⟩ := normal'.authority a' authority'
      rw [hierarchy_of_some authority, hierarchy_of_some authority', List.cons.injEq,
        List.cons.injEq] at eq
      have whole := eq.2.2
      have texts := congrArg (List.takeWhile (· ≠ '/')) whole
      rw [takeWhile_before_path (named.text_not_mem (by simp)) rooted,
        takeWhile_before_path (named'.text_not_mem (by simp)) rooted'] at texts
      rw [texts, List.append_cancel_left_eq] at whole
      exact ⟨congrArg _ (authority_text_inj named named' texts), String.toList_inj.mp whole⟩

theorem Normal.hierarchy_not_mem {u : Uri} (normal : Normal u) {c : Char} (mark : c = '#' ∨ c = '?') :
    c ∉ u.hierarchy := by
  have inPath : c ∉ u.path.toList := by
    intro member
    rcases mark with rfl | rfl
    · exact (normal.path '#' member).1 rfl
    · exact (normal.path '?' member).2 rfl
  have other : c ≠ '/' ∧ c ≠ '.' ∧ c ∈ ['/', '?', '#'] := by rcases mark with rfl | rfl <;> decide
  cases authority : u.authority with
  | none => rcases hierarchy_of_none authority with ⟨-, own⟩ | ⟨-, own⟩ <;> simp [own, other, inPath]
  | some a =>
    have inText := (normal.authority a authority).1.text_not_mem other.2.2
    simp [hierarchy_of_some authority, other, inPath, inText]

theorem IsScheme.not_mem {scheme : List Char} (isScheme : IsScheme scheme) {c : Char}
    (mark : isSchemeChar c = false) : c ∉ scheme := by
  intro member
  rw [List.all_eq_true.mp isScheme.plain c member] at mark
  contradiction

/-- The text of an identifier tells its parts apart. -/
theorem Normal.text_inj {u v : Uri} (normal : Normal u) (normal' : Normal v) (eq : u.text = v.text) :
    u = v := by
  have unasked {u : Uri} (normal : Normal u) {c : Char} (mark : c = '#' ∨ c = '?') :
      c ∉ u.scheme.toList ++ ':' :: u.hierarchy := by
    have other : c ≠ ':' ∧ isSchemeChar c = false := by rcases mark with rfl | rfl <;> decide
    simp [other.1, normal.scheme.not_mem other.2, normal.hierarchy_not_mem mark]
  have unended {u : Uri} (normal : Normal u) :
      '#' ∉ u.scheme.toList ++ ':' :: u.hierarchy ++ marked '?' u.query := by
    rw [List.mem_append, not_or]
    refine ⟨unasked normal (.inl rfl), ?_⟩
    cases query : u.query with
    | none => simp [marked]
    | some text => simpa [marked] using normal.query text query
  obtain ⟨eq, fragment⟩ := append_marked_inj (unended normal) (unended normal') eq
  obtain ⟨eq, query⟩ := append_marked_inj (unasked normal (.inr rfl)) (unasked normal' (.inr rfl)) eq
  obtain ⟨scheme, eq⟩ := append_cons_inj_of_free (normal.scheme.not_mem (by decide))
    (normal'.scheme.not_mem (by decide)) eq
  obtain ⟨authority, path⟩ := hierarchy_inj normal normal' eq
  cases u
  cases v
  obtain rfl := String.toList_inj.mp scheme
  obtain rfl := authority
  obtain rfl := path
  obtain rfl := query
  obtain rfl := fragment
  rfl

theorem mem_hexDigits {n : Nat} {c : Char} (member : c ∈ hexDigits n) :
    c ∈ "0123456789abcdef".toList := by
  have small : ∀ d < 16, hexDigit d ∈ "0123456789abcdef".toList := by decide
  fun_induction hexDigits n with
  | case1 n digit =>
    obtain rfl := List.mem_singleton.mp member
    exact small n digit
  | case2 n _ ih =>
    rcases List.mem_append.mp member with front | last
    · exact ih front
    · obtain rfl := List.mem_singleton.mp last
      exact small _ (Nat.mod_lt n (by decide))

theorem not_mem_of_apart {chars marks : List Char} {c : Char}
    (apart : chars.all (fun c => !marks.contains c) = true) (member : c ∈ chars) : c ∉ marks := by
  simpa using List.all_eq_true.mp apart c member

/-- The characters that addresses are written with between their brackets. -/
def addressChars : List Char := ":0123456789abcdef".toList

theorem mem_joinPieces {pieces : List Nat} {c : Char} (member : c ∈ Host.joinPieces pieces) :
    c ∈ addressChars := by
  have digit {n : Nat} (among : c ∈ hexDigits n) : c ∈ addressChars :=
    List.mem_cons_of_mem _ (mem_hexDigits among)
  unfold Host.joinPieces at member
  induction pieces with
  | nil => simp [List.intercalate] at member
  | cons n rest ih =>
    cases rest with
    | nil => exact digit (by simpa [List.intercalate] using member)
    | cons next rest =>
      rw [List.map_cons, List.map_cons, List.intercalate_cons_cons, List.mem_append,
        List.mem_append] at member
      rcases member with (first | colon) | later
      · exact digit first
      · obtain rfl := List.mem_singleton.mp colon
        decide
      · exact ih later

theorem isHost_bracketed {text host : List Char} (read : Host.bracketed text = .ok host) :
    IsHost host := by
  unfold Host.bracketed at read
  split at read
  next =>
    split at read
    next pieces _ =>
      obtain rfl := Except.ok.inj read
      refine .inl ⟨Host.ipv6Text pieces, rfl, fun c member mark => ?_⟩
      have among : c ∈ addressChars := by
        unfold Host.ipv6Text at member
        split at member
        next => exact mem_joinPieces member
        next =>
          simp only [List.mem_append, List.mem_cons] at member
          rcases member with front | rfl | rfl | back
          · exact mem_joinPieces front
          · decide
          · decide
          · exact mem_joinPieces back
      exact not_mem_of_apart (by decide) among mark
    next => contradiction
  next => contradiction

theorem isHost_ofOpaque {text host : List Char} (read : Host.ofOpaque text = .ok host) :
    IsHost host := by
  unfold Host.ofOpaque at read
  split at read
  next => exact isHost_bracketed read
  next =>
    split at read
    next => contradiction
    next allowed =>
      obtain rfl := Except.ok.inj read
      refine .inr fun c member mark => ?_
      rcases mem_escape member with ⟨inText, -⟩ | inTriple
      · refine allowed (List.any_eq_true.mpr ⟨c, inText, ?_⟩)
        have forbidden : hostMarks.all Host.forbiddenInOpaque = true := by decide
        exact List.all_eq_true.mp forbidden c mark
      · exact not_mem_of_apart (by decide) inTriple mark

theorem isHost_ofSpecial {text host : List Char} (read : Host.ofSpecial text = .ok host) :
    IsHost host := by
  have digit {c : Char} {n : Nat} (member : c ∈ Decimal.digits n)
      (mark : c ∈ hostMarks) : False := by
    have apart : hostMarks.all (! Decimal.isDigit ·) = true := by decide
    exact not_mem_digits (by simpa using List.all_eq_true.mp apart c mark) n member
  unfold Host.ofSpecial at read
  split at read
  next => exact isHost_bracketed read
  next =>
    split at read
    next => contradiction
    next name _ =>
      split at read
      next => contradiction
      next allowed =>
        split at read
        next => contradiction
        next =>
          split at read
          next =>
            split at read
            next =>
              obtain rfl := Except.ok.inj read
              refine .inr fun c member mark => ?_
              have stop : '.' ∉ hostMarks := by decide
              simp only [Host.ipv4Text, List.append_assoc, List.cons_append, List.mem_append,
                List.mem_cons] at member
              rcases member with part | rfl | part | rfl | part | rfl | part
              · exact digit part mark
              · exact stop mark
              · exact digit part mark
              · exact stop mark
              · exact digit part mark
              · exact stop mark
              · exact digit part mark
            next => contradiction
          next =>
            obtain rfl := Except.ok.inj read
            refine .inr fun c member mark => allowed (List.any_eq_true.mpr ⟨c, member, ?_⟩)
            have forbidden : hostMarks.all Host.forbiddenInName = true := by decide
            exact List.all_eq_true.mp forbidden c mark

theorem credentials_free (text : List Char) : ∀ c ∈ credentials text, c ∉ partMarks := by
  have escaped {c : Char} {text : List Char} (member : c ∈ escape reservedInCredentials text)
      (mark : c ∈ partMarks) : False := by
    have reserved : partMarks.all reservedInCredentials = true := by decide
    have free := free_of_mem_escape (by decide) member
    rw [List.all_eq_true.mp reserved c mark] at free
    contradiction
  intro c member mark
  unfold credentials at member
  split at member
  next => exact escaped member mark
  next =>
    rcases List.mem_append.mp member with user | rest
    · exact escaped user mark
    · rcases List.mem_cons.mp rest with rfl | password
      · revert mark
        decide
      · exact escaped password mark
  next => exact escaped member mark

/-- Authority of a host that was read, of the credentials before it and of what stands behind it. -/
def closeAuthority (kind : SchemeKind) (user host behind path : List Char) :
    Except UriError (Authority × List Char) := do
  if host = [] ∧ behind ≠ [] then .error .emptyHost
  let (port, left) ← match behind with
    | ':' :: digits => readPort digits
    | _ => pure (none, [])
  let port := match kind with
    | .network standard => if port = some standard then none else port
    | _ => port
  if host = [] ∧ user ≠ [] then .error .emptyHost
  return (⟨String.ofList user, String.ofList host, port⟩, left ++ path)

theorem of_closeAuthority {kind : SchemeKind} {user host behind path left : List Char} {a : Authority}
    (read : closeAuthority kind user host behind path = .ok (a, left)) :
    a.credentials = String.ofList user ∧ a.host = String.ofList host := by
  simp only [closeAuthority, bind, Except.bind, pure, Except.pure] at read
  split at read
  next => contradiction
  next =>
    split at read
    next =>
      split at read
      next => contradiction
      next =>
        split at read
        next => contradiction
        next =>
          obtain ⟨rfl, -⟩ := Prod.mk.inj (Except.ok.inj read)
          exact ⟨rfl, rfl⟩
    next =>
      split at read
      next => contradiction
      next =>
        obtain ⟨rfl, -⟩ := Prod.mk.inj (Except.ok.inj read)
        exact ⟨rfl, rfl⟩

/-- Host and port behind credentials. -/
def readPlace (kind : SchemeKind) (user rest path : List Char) :
    Except UriError (Authority × List Char) :=
  if kind = .general then do
    let host ← Host.ofOpaque (cutHost false rest).1
    closeAuthority kind user host (cutHost false rest).2 path
  else if (cutHost false rest).1 = [] then .error .emptyHost
  else do
    let host ← Host.ofSpecial (cutHost false rest).1
    closeAuthority kind user host (cutHost false rest).2 path

theorem readPlace_of_readAuthority {kind : SchemeKind} {closed : Bool} {text : List Char}
    {result : Authority × List Char} (read : readAuthority kind closed text = .ok result) :
    ∃ user rest path, (user = [] ∨ ∃ head, user = credentials head) ∧
      readPlace kind user rest path = .ok result := by
  unfold readAuthority at read
  cases cut : cutCredentials
      (text.takeWhile (! (if kind = .general then isSlash else isAnySlash) ·)) with
  | none =>
    simp only [cut] at read
    exact ⟨[], _, _, .inl rfl, read⟩
  | some parts =>
    obtain ⟨head, rest⟩ := parts
    simp only [cut] at read
    cases head with
    | nil =>
      by_cases bare : rest = [] ∧
          (text.dropWhile (! (if kind = .general then isSlash else isAnySlash) ·) ≠ [] ∨ closed = true)
      · simp only [if_pos bare] at read
        cases read
      · simp only [if_neg bare] at read
        exact ⟨[], rest, _, .inl rfl, read⟩
    | cons c head => exact ⟨credentials (c :: head), rest, _, .inr ⟨c :: head, rfl⟩, read⟩

theorem named_of_readAuthority {kind : SchemeKind} {closed : Bool} {text left : List Char}
    {a : Authority} (read : readAuthority kind closed text = .ok (a, left)) : Named a := by
  obtain ⟨user, rest, path, origin, placed⟩ := readPlace_of_readAuthority read
  have named {host : List Char} (isHost : IsHost host)
      (finished : closeAuthority kind user host (cutHost false rest).2 path = .ok (a, left)) :
      Named a := by
    obtain ⟨credentials, hosted⟩ := of_closeAuthority finished
    refine ⟨fun c member => ?_, by rw [hosted, String.toList_ofList]; exact isHost⟩
    rw [credentials, String.toList_ofList] at member
    rcases origin with rfl | ⟨head, rfl⟩
    · simp at member
    · exact credentials_free head c member
  unfold readPlace at placed
  split at placed
  next =>
    cases opened : Host.ofOpaque (cutHost false rest).1 with
    | error e => rw [opened] at placed; cases placed
    | ok host => exact named (isHost_ofOpaque opened) (by rw [opened] at placed; exact placed)
  next =>
    split at placed
    next => contradiction
    next =>
      cases opened : Host.ofSpecial (cutHost false rest).1 with
      | error e => rw [opened] at placed; cases placed
      | ok host => exact named (isHost_ofSpecial opened) (by rw [opened] at placed; exact placed)

theorem named_none : Named Authority.none := ⟨by simp [Authority.none], .inr (by simp [Authority.none])⟩

theorem named_of_host {host : List Char} (isHost : IsHost host) : Named ⟨"", String.ofList host, none⟩ :=
  ⟨by simp, by simpa using isHost⟩

theorem named_of_readFile {text path : List Char} {a : Authority}
    (read : readFile text = .ok (a, path)) : Named a := by
  have unhosted {found : List Char} (eq : (.ok (Authority.none, found) : Except UriError _) =
      .ok (a, path)) : Named a := by
    obtain ⟨rfl, -⟩ := Prod.mk.inj (Except.ok.inj eq)
    exact named_none
  have hosted {host behind : List Char} (isHost : IsHost host)
      (eq : (if host = [] ∨ host = "localhost".toList then
          .ok (Authority.none, filePath (withDrive [[]] (split isAnySlash behind)))
        else .ok (onHost host (split isAnySlash behind)) : Except UriError _) = .ok (a, path)) :
      Named a := by
    split at eq
    next => exact unhosted eq
    next =>
      unfold onHost at eq
      split at eq
      next => exact unhosted eq
      next =>
        obtain ⟨rfl, -⟩ := Prod.mk.inj (Except.ok.inj eq)
        exact named_of_host isHost
  unfold readFile at read
  split at read
  next a b rest =>
    split at read
    next =>
      simp only [bind, Except.bind, pure, Except.pure] at read
      split at read
      next => exact unhosted read
      next =>
        split at read
        next => exact unhosted (by simpa using read)
        next =>
          split at read
          next => contradiction
          next opened => exact hosted (isHost_ofSpecial opened) read
    next => exact unhosted read
  next => exact unhosted read

/-- A path with a root begins with its slash, and goes on with no step. -/
theorem slash_of_rooted {path : List Char} (rooted : Rooted isSlash path) :
    (∃ rest, path = '/' :: rest) ∧ ∀ rest, path ≠ '/' :: '.' :: '/' :: rest := by
  obtain ⟨first, segments, rfl, proper⟩ := rooted
  refine ⟨⟨_, join_cons first segments⟩, fun rest eq => ?_⟩
  have own := proper first List.mem_cons_self
  have first_eq : (first ++ join segments).takeWhile (· ≠ '/') = first :=
    takeWhile_segment fun c member => by simpa [isSlash] using (own.plain c member).2
  rw [join_cons, List.cons.injEq] at eq
  rw [eq.2] at first_eq
  have dot := own.dot
  rw [← first_eq] at dot
  simp [isDot] at dot

theorem authority_of_readHierarchy {kind : SchemeKind} {closed : Bool} {head path : List Char}
    {a : Authority} (read : readHierarchy kind closed head = .ok (some a, path)) :
    Named a ∧ (path = [] ∨ ∃ rest, path = '/' :: rest) := by
  have after {kind : SchemeKind} {text : List Char} {found : Authority × List Char}
      (opened : readAuthority kind closed text = .ok found)
      (eq : (.ok (some found.1, pathAfterAuthority kind found.2) : Except UriError _) =
        .ok (some a, path)) : Named a ∧ (path = [] ∨ ∃ rest, path = '/' :: rest) := by
    simp only [Except.ok.injEq, Prod.mk.injEq, Option.some.injEq] at eq
    obtain ⟨rfl, rfl⟩ := eq
    refine ⟨named_of_readAuthority opened, ?_⟩
    exact (rooted_pathAfterAuthority kind found.2).imp id fun rooted => (slash_of_rooted rooted).1
  unfold readHierarchy at read
  split at read
  next =>
    cases file : readFile head with
    | error e => simp [file, bind, Except.bind] at read
    | ok found =>
      simp only [file, bind, Except.bind, pure, Except.pure, Except.ok.injEq, Prod.mk.injEq,
        Option.some.injEq] at read
      obtain ⟨rfl, rfl⟩ := read
      exact ⟨named_of_readFile file, .inr (slash_of_rooted (local_of_readFile file).1.rooted).1⟩
  next port =>
    cases opened : readAuthority (.network port) closed (head.dropWhile isAnySlash) with
    | error e => simp [opened, bind, Except.bind] at read
    | ok found =>
      rw [opened] at read
      exact after opened read
  next =>
    unfold readGeneral at read
    split at read
    next rest =>
      cases opened : readAuthority .general closed rest with
      | error e => simp [opened, bind, Except.bind] at read
      | ok found =>
        rw [opened] at read
        exact after opened read
    next => cases read
    next => cases read

theorem normal_of_parse {raw : String} {u : Uri} (read : parse raw = .ok u) : Normal u where
  scheme := isScheme_of_parse read
  authority a named := by
    obtain ⟨scheme, tail, authority, path, closed, head, rfl, inner, -⟩ := read_of_parse read
    obtain rfl : authority = some a := named
    simpa [assemble] using authority_of_readHierarchy inner
  path c member := by
    rcases path_of_parse read with rooted | plain
    · exact ((plain_of_rooted rooted).1 c member).2
    · exact (plain.plain c member).2
  unstepped := by
    rcases path_of_parse read with rooted | plain
    · exact (slash_of_rooted rooted).2
    · intro rest eq
      exact plain.unrooted (by rw [eq]; rfl)
  query text asked := by
    obtain ⟨scheme, tail, authority, path, closed, head, rfl, -, -⟩ := read_of_parse read
    obtain ⟨query, -, rfl⟩ := Option.map_eq_some_iff.mp asked
    rw [String.toList_ofList]
    intro member
    split at member
    · exact absurd (free_of_mem_escape (by decide) member) (by decide)
    · exact absurd (free_of_mem_escape (by decide) member) (by decide)

/-- Identifiers that were read are the same exactly if their texts are. -/
theorem eq_of_text_eq {raw raw' : String} {u v : Uri} (read : parse raw = .ok u)
    (read' : parse raw' = .ok v) (same : u.text = v.text) : u = v :=
  (normal_of_parse read).text_inj (normal_of_parse read') same

end Uri

end LinkedViews

import ByteLayout.Proofs.Integer
import ByteLayout.Proofs.Silence

/-!
# What a scalar field writes

If the script of an integer, a float or a string ends well, then the field lies in a file and below
a byte order, its value was found and checked, and the steps are those of the lookup, followed by
the announcement of the field and its bytes. An integer keeps the integer, a string its text, and a
float the value that was found.
-/

namespace ByteLayout

@[simp] theorem keep_fst (name : Option String) (record : Fields Value) (value : Value) :
    (keep name record value).1 = value := by
  cases name <;> rfl

/-- The place of a field in a file of the root directory. -/
def Scope.inFile (order : ByteOrder) (path : String) : Scope :=
  { Scope.base "" with order := some order, trail := path, file := some path }

namespace Write.Pass

open Script

variable {pass : Pass} {name : Option String} {default : Option Value} {scope : Scope}
  {input : Input} {record : Fields Value} {kept : Kept}

theorem int_eq_ok {kind : IntKind}
    (h : (pass.int kind name default scope input record).outcome = .ok kept) :
    ∃ order n, scope.fieldOrder kind.label = .ok order ∧ kind.Holds n ∧
      kept = keep name record (.int n) ∧
      (pass.int kind name default scope input record).steps =
        (pass.resolve kind.label name default scope input record).steps ++
          [.field scope.trail kind.label, .scalar (kind.encode order n)] := by
  unfold int at h ⊢
  obtain ⟨order, horder, h⟩ := outcome_bind_eq_ok.mp h
  obtain ⟨value, hvalue, h⟩ := outcome_bind_eq_ok.mp h
  obtain ⟨n, hn, h⟩ := outcome_bind_eq_ok.mp h
  have hholds := (IntKind.holds_of_check (outcome_ofCheck_eq_ok.mp hn)).2
  refine ⟨order, n, horder, hholds, (Except.ok.inj h).symm, ?_⟩
  rw [steps_bind_of_ok horder, steps_bind_of_ok hvalue, steps_bind_of_ok hn, steps_ofCheck]
  rfl

/-- An integer field that has a value which its kind accepts is written. -/
theorem int_of_check {kind : IntKind} {order : ByteOrder} {value : Value} {n : Int}
    (horder : scope.fieldOrder kind.label = .ok order)
    (hvalue : (pass.resolve kind.label name default scope input record).outcome = .ok value)
    (hn : kind.check value = .ok n) :
    (pass.int kind name default scope input record).outcome = .ok (keep name record (.int n)) ∧
      (pass.int kind name default scope input record).steps =
        (pass.resolve kind.label name default scope input record).steps ++
          [.field scope.trail kind.label, .scalar (kind.encode order n)] := by
  have hchecked : (ofCheck scope.trail (kind.check value)).outcome = .ok n :=
    outcome_ofCheck_eq_ok.mpr hn
  unfold int
  constructor
  · rw [outcome_bind_of_ok ((outcome_ofExcept _).trans horder), outcome_bind_of_ok hvalue,
      outcome_bind_of_ok hchecked]
    rfl
  · rw [steps_bind_of_ok ((outcome_ofExcept _).trans horder), steps_bind_of_ok hvalue,
      steps_bind_of_ok hchecked, steps_ofCheck]
    rfl

theorem float_eq_ok {kind : FloatKind}
    (h : (pass.float kind name default scope input record).outcome = .ok kept) :
    ∃ order value x, scope.fieldOrder kind.label = .ok order ∧
      (pass.resolve kind.label name default scope input record).outcome = .ok value ∧
      kind.check value = .ok x ∧ kept = keep name record value ∧
      (pass.float kind name default scope input record).steps =
        (pass.resolve kind.label name default scope input record).steps ++
          [.field scope.trail kind.label, .scalar (kind.encode order x)] := by
  unfold float at h ⊢
  obtain ⟨order, horder, h⟩ := outcome_bind_eq_ok.mp h
  obtain ⟨value, hvalue, h⟩ := outcome_bind_eq_ok.mp h
  obtain ⟨x, hx, h⟩ := outcome_bind_eq_ok.mp h
  refine ⟨order, value, x, horder, hvalue, outcome_ofCheck_eq_ok.mp hx,
    (Except.ok.inj h).symm, ?_⟩
  rw [steps_bind_of_ok horder, steps_bind_of_ok hvalue, steps_bind_of_ok hx, steps_ofCheck]
  rfl

/-- A float field that has a value which its kind accepts keeps that value. -/
theorem outcome_float {kind : FloatKind} {order : ByteOrder} {value : Value} {x : Double}
    (horder : scope.fieldOrder kind.label = .ok order)
    (hvalue : (pass.resolve kind.label name default scope input record).outcome = .ok value)
    (hx : kind.check value = .ok x) :
    (pass.float kind name default scope input record).outcome =
      .ok (keep name record value) := by
  unfold float
  rw [outcome_bind_of_ok ((outcome_ofExcept _).trans horder), outcome_bind_of_ok hvalue,
    outcome_bind_of_ok (outcome_ofCheck_eq_ok.mpr hx)]
  rfl

theorem lengthOf_eq_ok {kind : IntKind} {bytes : Nat} {n : Int} (h : lengthOf kind bytes = .ok n) :
    kind.Holds n ∧ n = bytes := by
  unfold lengthOf at h
  split at h
  · next m hm =>
    cases h
    obtain ⟨hinteger, hholds⟩ := IntKind.holds_of_check hm
    exact ⟨hholds, (Except.ok.inj hinteger).symm⟩
  · cases h

theorem string_eq_ok {kind : IntKind} {text : Node}
    (h : (pass.string kind text name default scope input record).outcome = .ok kept) :
    ∃ order encoding content bytes, scope.fieldOrder kind.label = .ok order ∧
      text.kind = .text encoding ∧ encoding.toBytes content = .ok bytes ∧
      kind.Holds (encoding.byteLength content) ∧ kept = keep name record (.string content) ∧
      (pass.string kind text name default scope input record).steps =
        (pass.resolve kind.label name (text.default.or default) scope input record).steps ++
          [.field scope.trail kind.label,
            .scalar (kind.encode order (encoding.byteLength content)), .payload bytes] := by
  unfold string at h ⊢
  obtain ⟨order, horder, h⟩ := outcome_bind_eq_ok.mp h
  cases hkind : text.kind with
  | text encoding =>
    rw [hkind] at h
    obtain ⟨value, hvalue, h⟩ := outcome_bind_eq_ok.mp h
    obtain ⟨content, hcontent, h⟩ := outcome_bind_eq_ok.mp h
    obtain ⟨bytes, hbytes, h⟩ := outcome_bind_eq_ok.mp h
    obtain ⟨length, hlength, h⟩ := outcome_bind_eq_ok.mp h
    obtain ⟨hholds, rfl⟩ := lengthOf_eq_ok (outcome_ofCheck_eq_ok.mp hlength)
    refine ⟨order, encoding, content, bytes, horder, rfl, outcome_ofCheck_eq_ok.mp hbytes, hholds,
      (Except.ok.inj h).symm, ?_⟩
    rw [steps_bind_of_ok horder]
    dsimp only
    rw [steps_bind_of_ok hvalue, steps_bind_of_ok hcontent, steps_bind_of_ok hbytes,
      steps_bind_of_ok hlength]
    simp only [steps_ofCheck, List.nil_append]
    rfl
  | _ =>
    rw [hkind] at h
    cases h

end Write.Pass

end ByteLayout

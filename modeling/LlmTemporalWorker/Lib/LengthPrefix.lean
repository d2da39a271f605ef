/-
Strings with their length in front.

`8:abcdefgh` can be cut off the front of any string in one way only, so
a concatenation of such pieces can be read back, whatever the strings
hold (`lengthPrefixed_append_inj`).
-/
import LlmTemporalWorker.Lib.Digits

namespace LlmTemporalWorker.Lib

/-- A string behind its length in bytes and a colon. -/
def lengthPrefixed (value : String) : String :=
  toString value.utf8ByteSize ++ ":" ++ value

/-- Two beginnings of one text that have the same size are the same. -/
theorem append_inj_of_utf8Len {a b r s : List Char}
    (h : a ++ r = b ++ s) (hsize : String.utf8Len a = String.utf8Len b) :
    a = b ∧ r = s := by
  rcases List.append_eq_append_iff.mp h with ⟨t, rfl, rfl⟩ | ⟨t, rfl, rfl⟩
  · rw [String.utf8Len_append] at hsize
    have ht : t = [] := String.utf8Len_eq_zero.mp (by omega)
    simp [ht]
  · rw [String.utf8Len_append] at hsize
    have ht : t = [] := String.utf8Len_eq_zero.mp (by omega)
    simp [ht]

theorem toList_lengthPrefixed (value : String) : (lengthPrefixed value).toList
      = Nat.toDigits 10 value.utf8ByteSize ++ ':' :: value.toList := by
  unfold lengthPrefixed
  rw [String.toList_append, String.toList_append, toList_toString, List.append_assoc]
  rfl

/-- A piece and what follows it can be told apart. -/
theorem lengthPrefixed_append_inj {a b r s : String}
    (h : lengthPrefixed a ++ r = lengthPrefixed b ++ s) :
    a = b ∧ r = s := by
  have hlist := congrArg String.toList h
  simp only [String.toList_append, toList_lengthPrefixed,
    List.append_assoc, List.cons_append] at hlist
  have hcolon : ∀ text : List Char, ∀ c ∈ (':' :: text).head?, c.isDigit = false := by simp
  have hsize : a.utf8ByteSize = b.utf8ByteSize := toDigits_append_inj hlist (hcolon _) (hcolon _)
  rw [hsize] at hlist
  have htext := (List.cons_eq_cons.mp (List.append_cancel_left hlist)).2
  have hlen : ∀ text : String, String.utf8Len text.toList = text.utf8ByteSize := by
    intro text
    rw [← String.utf8ByteSize_ofList, String.ofList_toList]
  obtain ⟨hvalue, hrest⟩ := append_inj_of_utf8Len htext (by rw [hlen, hlen, hsize])
  exact ⟨String.toList_inj.mp hvalue, String.toList_inj.mp hrest⟩

end LlmTemporalWorker.Lib

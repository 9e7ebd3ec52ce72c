import PowerOfAttorney.Change.Script
import PowerOfAttorney.Document.Basic

/-!
# `PowerOfAttorney.Change.AddressFields` — the fields of an address

An address is given when a certificate provider signs and corrected later; the fields are the same and
the demands differ.

## Contents
- **Fields.** `Address.fields`, with the rules of the three parts on which the demands differ.
- **Demands.** `Address.given` for a new address, `Address.amended` for corrections of one.
-/

namespace PowerOfAttorney.Address

/-- Reads the parts of an address, and nothing else. -/
def fields (line1 town country : Rule) : Script Address :=
  .field "/line1" (.text (·.line1) fun v a => { a with line1 := v }) line1 <|
  .field "/line2" (.text (·.line2) fun v a => { a with line2 := v }) .allows <|
  .field "/line3" (.text (·.line3) fun v a => { a with line3 := v }) .allows <|
  .field "/town" (.text (·.town) fun v a => { a with town := v }) town <|
  .field "/postcode" (.text (·.postcode) fun v a => { a with postcode := v }) .allows <|
  .field "/country" (.text (·.country) fun v a => { a with country := v }) country <|
  .consumed .done

/-- A new address names its first line, its town and its country. -/
def given : Script Address :=
  fields (.checking .needs .notEmpty) (.checking .needs .notEmpty) (.checking .needs .country)

/-- Any part of an address may be corrected; the country stays a country code. -/
def amended : Script Address :=
  fields .allows .allows (.checking .allows .country)

end PowerOfAttorney.Address

import EntityQuery.Schema.Basic

/-!
# Sample schema: a zoo of cases

Deeper hierarchies, soft deletion on bases, ids of all types, references back to the own type, and
names that are unusual or collide.
-/

namespace EntityQuery.Sample.Zoo

/-- The entity `Company`. -/
def company : Entity :=
  { typeName := "Company", tableName := "companies", tag := "co"
    idType := .int, idDbType := "int"
    fields := [⟨"name", .primitive "name" "varchar"⟩,
      ⟨"owner", .manyToOne "owner_id" "Person" false⟩,
      ⟨"parent", .manyToOne "parent_id" "Company" false⟩,
      ⟨"offices", .oneToMany "Office" "company_id"⟩,
      ⟨"labels", .manyToMany "company_labels" "company_id" "label_id" "Label" "int"⟩,
      ⟨"employees", .oneToMany "Person" "employer_id"⟩, ⟨"hq", .oneToOne "Office" "hq_of_id"⟩,
      ⟨"subject", .polymorphic [⟨"subject_label_id", "Label"⟩, ⟨"subject_event_id", "Event"⟩]⟩]
    softDelete := true, softDeleteColumn := some "removed_at"
    inheritance := .classTable [] ["Brand", "Store"] }

/-- The entity `Brand`. -/
def brand : Entity :=
  { typeName := "Brand", tableName := "brands", tag := "co"
    idType := .int, idDbType := "int"
    fields := [⟨"slogan", .primitive "slogan" "text"⟩,
      ⟨"ambassador", .manyToOne "ambassador_id" "Person" true⟩,
      ⟨"campaigns", .oneToMany "Campaign" "brand_id"⟩, ⟨"boxes", .oneToMany "Box" "brand_id"⟩]
    softDelete := false, softDeleteColumn := none
    inheritance := .classTable ["Company"] ["LuxuryBrand"] }

/-- The entity `LuxuryBrand`. -/
def luxuryBrand : Entity :=
  { typeName := "LuxuryBrand", tableName := "luxury_brands", tag := "co"
    idType := .int, idDbType := "int"
    fields := [⟨"tier", .enumeration "tier_id" "smallint"⟩,
      ⟨"name", .primitive "luxury_name" "varchar"⟩]
    softDelete := false, softDeleteColumn := none
    inheritance := .classTable ["Brand", "Company"] [] }

/-- The entity `Store`. -/
def store : Entity :=
  { typeName := "Store", tableName := "stores", tag := "co"
    idType := .int, idDbType := "int"
    fields := [⟨"city", .primitive "city" "varchar"⟩]
    softDelete := true, softDeleteColumn := none
    inheritance := .classTable ["Company"] [] }

/-- The entity `Person`. -/
def person : Entity :=
  { typeName := "Person", tableName := "people", tag := "pe"
    idType := .uuid, idDbType := "uuid"
    fields := [⟨"name", .primitive "name" "varchar"⟩, ⟨"key", .primaryKey⟩,
      ⟨"in", .primitive "in_col" "int"⟩, ⟨"meta", .primitive "meta" "jsonb"⟩,
      ⟨"nums", .primitive "nums" "int[]"⟩, ⟨"employer", .manyToOne "employer_id" "Company" true⟩,
      ⟨"boss", .manyToOne "boss_id" "Person" false⟩, ⟨"reports", .oneToMany "Person" "boss_id"⟩,
      ⟨"profile", .oneToOne "Profile" "person_id"⟩,
      ⟨"skills", .manyToMany "people_skills" "person_id" "label_id" "Label" "uuid"⟩,
      ⟨"friends", .manyToMany "friendships" "from_id" "to_id" "Person" "int"⟩,
      ⟨"desks", .oneToMany "Desk" "occupant_id"⟩]
    softDelete := true, softDeleteColumn := none
    inheritance := .none }

/-- The entity `Profile`. -/
def profile : Entity :=
  { typeName := "Profile", tableName := "profiles", tag := "pr"
    idType := .untaggedString, idDbType := "text"
    fields := [⟨"bio", .primitive "bio" "text"⟩, ⟨"person", .manyToOne "person_id" "Person" true⟩,
      ⟨"theme", .manyToOne "theme_id" "Theme" false⟩,
      ⟨"themes", .manyToMany "profile_themes" "profile_id" "theme_id" "Theme" "bigint"⟩]
    softDelete := false, softDeleteColumn := none
    inheritance := .none }

/-- The entity `Theme`. -/
def theme : Entity :=
  { typeName := "Theme", tableName := "Themes", tag := "th"
    idType := .untaggedString, idDbType := "citext"
    fields := [⟨"title", .primitive "title" "varchar"⟩,
      ⟨"profile", .oneToOne "Profile" "theme_id"⟩]
    softDelete := false, softDeleteColumn := none
    inheritance := .none }

/-- The entity `Label`. -/
def label : Entity :=
  { typeName := "Label", tableName := "labels", tag := "l"
    idType := .int, idDbType := "int"
    fields := [⟨"text", .primitive "text" "varchar"⟩,
      ⟨"parent", .manyToOne "parent_id" "Label" false⟩,
      ⟨"children", .oneToMany "Label" "parent_id"⟩]
    softDelete := true, softDeleteColumn := none
    inheritance := .none }

/-- The entity `Office`. -/
def office : Entity :=
  { typeName := "Office", tableName := "offices", tag := "o"
    idType := .int, idDbType := "bigint"
    fields := [⟨"city", .primitive "city" "varchar"⟩,
      ⟨"company", .manyToOne "company_id" "Company" true⟩,
      ⟨"manager", .manyToOne "manager_id" "Person" false⟩,
      ⟨"desks", .oneToMany "Desk" "office_id"⟩, ⟨"parties", .oneToMany "Party" "venue_id"⟩]
    softDelete := false, softDeleteColumn := none
    inheritance := .none }

/-- The entity `Desk`. -/
def desk : Entity :=
  { typeName := "Desk", tableName := "desks", tag := "d"
    idType := .int, idDbType := "int"
    fields := [⟨"number", .primitive "number" "int"⟩,
      ⟨"office", .manyToOne "office_id" "Office" true⟩,
      ⟨"occupant", .manyToOne "occupant_id" "Person" false⟩]
    softDelete := false, softDeleteColumn := none
    inheritance := .none }

/-- The entity `Campaign`. -/
def campaign : Entity :=
  { typeName := "Campaign", tableName := "campaigns", tag := "ca"
    idType := .uuid, idDbType := "uuid"
    fields := [⟨"name", .primitive "name" "varchar"⟩,
      ⟨"brand", .manyToOne "brand_id" "Brand" true⟩,
      ⟨"luxury", .manyToOne "luxury_id" "LuxuryBrand" false⟩,
      ⟨"target", .polymorphic [⟨"target_person_id", "Person"⟩, ⟨"target_company_id", "Company"⟩,
        ⟨"target_profile_id", "Profile"⟩, ⟨"target_brand_id", "Brand"⟩]⟩,
      ⟨"nothing", .polymorphic []⟩]
    softDelete := false, softDeleteColumn := none
    inheritance := .none }

/-- The entity `Box`. -/
def box : Entity :=
  { typeName := "Box", tableName := "b_1", tag := "bx"
    idType := .int, idDbType := "int"
    fields := [⟨"size", .primitive "size" "int"⟩, ⟨"brand", .manyToOne "brand_id" "Brand" false⟩]
    softDelete := false, softDeleteColumn := none
    inheritance := .none }

/-- The entity `Event`. -/
def event : Entity :=
  { typeName := "Event", tableName := "events", tag := "ev"
    idType := .int, idDbType := "int"
    fields := [⟨"at", .primitive "at" "timestamptz"⟩,
      ⟨"host", .manyToOne "host_id" "Person" false⟩,
      ⟨"attendees", .manyToMany "event_attendees" "event_id" "person_id" "Person" "int"⟩,
      ⟨"about", .polymorphic [⟨"about_label_id", "Label"⟩]⟩]
    softDelete := true, softDeleteColumn := none
    inheritance := .singleTable none "kind_id" none }

/-- The entity `Party`. -/
def party : Entity :=
  { typeName := "Party", tableName := "events", tag := "ev"
    idType := .int, idDbType := "int"
    fields := [⟨"theme", .primitive "theme" "varchar"⟩,
      ⟨"venue", .manyToOne "venue_id" "Office" false⟩]
    softDelete := false, softDeleteColumn := none
    inheritance := .singleTable (some "Event") "kind_id" (some 2) }

/-- The entity `Rave`. -/
def rave : Entity :=
  { typeName := "Rave", tableName := "events", tag := "ev"
    idType := .int, idDbType := "int"
    fields := [⟨"bpm", .primitive "bpm" "int"⟩]
    softDelete := false, softDeleteColumn := none
    inheritance := .singleTable (some "Party") "kind_id" (some 3) }

/-- The entity `Gala`. -/
def gala : Entity :=
  { typeName := "Gala", tableName := "events", tag := "ev"
    idType := .int, idDbType := "int"
    fields := []
    softDelete := true, softDeleteColumn := some "cancelled_at"
    inheritance := .singleTable (some "Event") "gala_kind" (some (-9223372036854775808)) }

/-- The entity `Odd`. -/
def odd : Entity :=
  { typeName := "Odd", tableName := "Ünïcode_ßet_İx__9z", tag := ""
    idType := .int, idDbType := "int"
    fields := [⟨"like", .primitive "li\"ke" "varchar"⟩, ⟨"raw", .primitive "raw col" ""⟩,
      ⟨"other", .manyToOne "other_id" "Blank" false⟩, ⟨"blanks", .oneToMany "Blank" "odd_id"⟩,
      ⟨"", .primitive "" "int"⟩, ⟨"$new", .primitive "new" "int"⟩]
    softDelete := false, softDeleteColumn := none
    inheritance := .none }

/-- The entity `Blank`. -/
def blank : Entity :=
  { typeName := "Blank", tableName := "__", tag := "urn"
    idType := .uuid, idDbType := "uuid"
    fields := [⟨"id", .primitive "never" "int"⟩, ⟨"dup", .primitive "first" "int"⟩,
      ⟨"dup", .primitive "second" "int"⟩, ⟨"odd", .manyToOne "odd_id" "Odd" false⟩,
      ⟨"odds", .oneToMany "Odd" "other_id"⟩]
    softDelete := false, softDeleteColumn := none
    inheritance := .none }

/-- The entities of the zoo. -/
def entities : List Entity :=
  [company, brand, luxuryBrand, store, person, profile, theme, label, office, desk, campaign, box,
    event, party, rave, gala, odd, blank]

/-- The schema of the entities. -/
def schema : Except SchemaError Schema := Schema.ofEntities entities

end EntityQuery.Sample.Zoo

/-
# GuideRig.Guide.Lexicon -- the words the guide has pages for

A request names a headword in one parameter of its query, and the lexicon names the file with the
page of that word. The table is the only way from a request to a file: a word that is not in it
leads nowhere.
-/

import GuideRig.Query

namespace GuideRig.Lexicon

/-- The query parameter that carries the headword. -/
def parameter : String := "slovo"

/-- Headwords and the files of their pages, one word for each part of speech. -/
def entries : List (String × String) :=
  [("malý", "adjective_response.html"),
   ("nahoře", "adverb_response.html"),
   ("nebo", "conjunction_response.html"),
   ("haló", "interjection_response.html"),
   ("okolnost", "noun_response.html"),
   ("sto", "numeral_response.html"),
   ("ať", "particle_response.html"),
   ("vedle_1", "preposition_response.html"),
   ("se", "pronoun_response.html"),
   ("dělat", "verb_response.html")]

/-- The file with the page of a word. -/
def file? (word : String) : Option String := entries.lookup word

/-- The headword that a query names: the first value of the parameter that is not empty. -/
def word? (query : Bytes) : Option String :=
  ((Query.pairs query).find? fun (name, value) => name == parameter && value != "").map (·.2)

end GuideRig.Lexicon

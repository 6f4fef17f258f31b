import ClassScript.Unicode.Value

/-!
Scripts, as data: the characters of each, and the characters that are used with each.
-/

namespace ClassScript.Unicode

/-- The scripts that characters are written in. -/
def scripts : List Value := [
  ⟨"Adlam", ["adlm"], "HDEuCxejeb"⟩,
  ⟨"Ahom", [], "EBRcBacoew"⟩,
  ⟨"Anatolian_Hieroglyphs", ["hluw"], "ESSeWk"⟩,
  ⟨"Arabic", ["arab"],
    String.join [
      "CHcebfbnbcbBfbjlzbEdbBhDcBvJgBebbfCwbBcDNTwEkqNycDbcCbhaBgpEiebFeFVnBeCpcCddDGLsdbBabbbacab",
      "jbdbabagaeabababcbbbacabababababbbacdbgbdbdbabjbqfcbebqCab"]⟩,
  ⟨"Armenian", ["armn"], "BZdBlcBxccDOZje"⟩,
  ⟨"Avestan", ["avst"], "DXCyCbdg"⟩,
  ⟨"Balinese", ["bali"], "KFwCybBx"⟩,
  ⟨"Bamum", ["bamu"], "CLCqDjCVCqVw"⟩,
  ⟨"Bassa_Vah", ["bass"], "FHKiBdcf"⟩,
  ⟨"Batak", ["batk"], "KNgBzid"⟩,
  ⟨"Bengali", ["beng"], "DPodbhcbcvbgbaddcicbcdiaebbecy"⟩,
  ⟨"Bhaiksuki", ["bhks"], "EDOiibBsbnkBc"⟩,
  ⟨"Bopomofo", ["bopo"], "BCsbRLxBqEiBf"⟩,
  ⟨"Brahmi", ["brah"], "DZAeCzeBjja"⟩,
  ⟨"Braille", ["brai"], "PDwJv"⟩,
  ⟨"Buginese", ["bugi"], "JWaBbcb"⟩,
  ⟨"Buhid", ["buhd"], "IUyt"⟩,
  ⟨"Canadian_Aboriginal", ["cans"], "HOyYpVoCrDTPqp"⟩,
  ⟨"Carian", ["cari"], "DTYmBw"⟩,
  ⟨"Caucasian_Albanian", ["aghb"], "DUXsBzla"⟩,
  ⟨"Chakma", ["cakm"], "DZKaCabr"⟩,
  ⟨"Cham", [], "CMJwCcjncjcd"⟩,
  ⟨"Cherokee", ["cher"], "HLgDhcfCFJeDb"⟩,
  ⟨"Chorasmian", ["chrs"], "DYXcBb"⟩,
  ⟨"Common", ["zyyy"],
    String.join [
      "aCmBafBaBubobexaBfaRhBmfectEmajagabaYnagaoadaBgaGaaTwaEzbBVtaPpdLeaCGlcCtbHvbbaBVhanahdbfbc",
      "caBDtlcDibkdkborBgClBlbccfbBabqBpceZpwkvBJrJwYdcBfbEaTsDpPmubabyphedDnbdaDmbFrpBgBljaBwClBf",
      "DcBvaDkGlJToClBHSiBhDycGjjJkaGeaPfaobBEZqbIajwBibsbdFrabBfBafBakkaBtbCmgbgkeJyceBsdiDcmBzBs",
      "IuBaCSHwdFVgJpgQtGaElCiJlkBmcCjdqibhBdeCiIftmtmDijyFfDgbCsbbcacbcdblbabgbCmbdchbgbBbbdbebad",
      "gbNbcLfcBxHThCpCyCiBBeBreDvmocobobBkkGrCezbbnBreihbofFyBLveqdmdEoeDqgleapleCdijgBniBdclebCk",
      "NbmncmdjfCdhockgihFqbDxBSUXbaBeDr"]⟩,
  ⟨"Coptic", ["copt", "qaac"], "BMgnPJkElfg"⟩,
  ⟨"Cuneiform", ["xsux"], "EFBsBJlDyEgbelHn"⟩,
  ⟨"Cypriot", ["cprt"], "DVZkfcabBrbbdaca"⟩,
  ⟨"Cypro_Minoan", ["cpmn"], "EKYyDu"⟩,
  ⟨"Cyrillic", ["cyrl"], "BNkFccGmIVokGeaCyaGFnBfBTOaDrBHEcbDHPgCjBha"⟩,
  ⟨"Deseret", ["dsrt"], "DUMaDb"⟩,
  ⟨"Devanagari", ["deva"], "DKqDceoczCIJgBfBREmj"⟩,
  ⟨"Dives_Akuru", ["diak"], "ECKugcachbbbBdbbcljj"⟩,
  ⟨"Dogra", ["dogr"], "ECAyCh"⟩,
  ⟨"Duployan", ["dupl"], "GMDsEcfmdihjcd"⟩,
  ⟨"Egyptian_Hieroglyphs", ["egyp"], "ELDgBQrkFXq"⟩,
  ⟨"Elbasan", ["elba"], "DUVwBn"⟩,
  ⟨"Elymaic", ["elym"], "DYYyw"⟩,
  ⟨"Ethiopic", ["ethi"],
    "GVgCubdcgbabdcBobdcBgbdcgbabdcobCebdcCocBfdzJVawjgbgbgbgbgbgbgbgBVKcfcfcfjgbgEPYfgbdbbbo"⟩,
  ⟨"Garay", ["gara"], "DXZcBldBcib"⟩,
  ⟨"Georgian", ["geor"], "GHsBlbafacBqbdEJwBqccGEaBlbafa"⟩,
  ⟨"Glagolitic", ["glag"], "QRgDrGIZggbqcgbbbe"⟩,
  ⟨"Gothic", ["goth"], "DUEaBa"⟩,
  ⟨"Grantha", ["gran"], "EADsdbhcbcvbgbbbecicbcccagafgcgde"⟩,
  ⟨"Greek", ["grek"],
    String.join [
      "BHwdbccdbaeababcbabtbCkopJNqeByeeeDgaMivcfcBlcfchbabababBecCabobncfbsccbiLjaCAJeaBGNiDaraDA",
      "XrCr"]⟩,
  ⟨"Gujarati", ["gujr"], "DZlcbibcbvbgbbbecjbcbccapdclhg"⟩,
  ⟨"Gunjala_Gondi", ["gong"], "EEBwfbbbBkbbbfhj"⟩,
  ⟨"Gurmukhi", ["guru"], "DUncbfebcvbgbbbbbbcabeebccdahdbahq"⟩,
  ⟨"Gurung_Khema", ["gukh"], "FDRsCf"⟩,
  ⟨"Han", ["hani"],
    "RPwzbDkmIfBvabaziodBLcJTnCmBFBjBHSiObcEbBSIibmbCCOkCLFbBgGDtgIncINpoLBkpXxDQwUvCFyHHyfGFf"⟩,
  ⟨"Hangul", ["hang"], "GLkJvLLebJxDpEjBeCnBeBTAnBcYtQNrmweBwPAiBedfcfcfcc"⟩,
  ⟨"Hanifi_Rohingya", ["rohg"], "DXWqBnij"⟩,
  ⟨"Hanunoo", ["hano"], "ITsu"⟩,
  ⟨"Hatran", ["hatr"], "DWIasbbfe"⟩,
  ⟨"Hebrew", ["hebr"], "CCvCciBaefDOVwzbebabbbbbj"⟩,
  ⟨"Hiragana", ["hira"], "SHdDhgcFPEvLasaBdcYMva"⟩,
  ⟨"Imperial_Aramaic", ["armi"], "DWBwvbi"⟩,
  ⟨"Inherited", ["qaai", "zinh"],
    String.join [
      "BDoEhKrbRkkBaaBCidGOxBeTtcbmbgeagadbHqClUebHmBgFTxdEdbCZUjpqnBLnaIsaGFaaCTCuBtcwUycrhcgBedB",
      "TLHiJf"]⟩,
  ⟨"Inscriptional_Pahlavi", ["phli"], "DXGqsfh"⟩,
  ⟨"Inscriptional_Parthian", ["prti"], "DXFkvch"⟩,
  ⟨"Javanese", ["java"], "CMEyCzcjeb"⟩,
  ⟨"Kaithi", ["kthi"], "DZFcCoka"⟩,
  ⟨"Kannada", ["knda"], "ETcmbcbwbjbecibcbdhbgbbdcjbc"⟩,
  ⟨"Katakana", ["kana"], "SKvDlccJgpIaBubDjCZHejbBsCOUcdbgbbbaLbcByaod"⟩,
  ⟨"Kawi", [], "EERwqbBodBc"⟩,
  ⟨"Kayah_Li", ["kali"], "CMAaBtba"⟩,
  ⟨"Kharoshthi", ["khar"], "DWTcdbbfhbcbBcccejhi"⟩,
  ⟨"Khitan_Small_Script", ["kits"], "FJIiaKGxSbBpa"⟩,
  ⟨"Khmer", ["khmr"], "IXkDpcjgjSsBf"⟩,
  ⟨"Khojki", ["khoj"], "DZTwrbBu"⟩,
  ⟨"Khudawadi", ["sind"], "EAAqCgfj"⟩,
  ⟨"Kirat_Rai", ["krai"], "FIIiCf"⟩,
  ⟨"Lao", ["laoo"], "FMvbbabebxbabwcebabgbjcd"⟩,
  ⟨"Latin", ["latn"],
    String.join [
      "CnzgzBvapafwbBebRgBneJXbBlgBwfdfmbCrCnJvOfanaqmFlbgaBbarBoECtBfBULmDxdCocbbabhvnBFkBqbibdBE",
      "DqgBOkzgzDCffbBpbiDDNpBegf"]⟩,
  ⟨"Lepcha", ["lepc"], "KPsCddodc"⟩,
  ⟨"Limbu", ["limb"], "JMeBebleleadl"⟩,
  ⟨"Linear_A", ["lina"], "DVFsLyjvkh"⟩,
  ⟨"Linear_B", ["linb"], "DSYqlbzbsbbbocnBiEs"⟩,
  ⟨"Lisu", [], "CKKuBvBUMaa"⟩,
  ⟨"Lycian", ["lyci"], "DTXgBc"⟩,
  ⟨"Lydian", ["lydi"], "DWKmzfa"⟩,
  ⟨"Mahajani", ["mahj"], "DZNcBm"⟩,
  ⟨"Makasar", ["maka"], "EEQqy"⟩,
  ⟨"Malayalam", ["mlym"], "EYambcbBybcbfepcz"⟩,
  ⟨"Mandaic", ["mand"], "DDgBbca"⟩,
  ⟨"Manichaean", ["mani"], "DXAmBmel"⟩,
  ⟨"Marchen", ["marc"], "EDSqBfcvbn"⟩,
  ⟨"Masaram_Gondi", ["gonm"], "EDYegbbbBrdabbbiij"⟩,
  ⟨"Medefaidrin", ["medf"], "FISeDm"⟩,
  ⟨"Meetei_Mayek", ["mtei"], "CMSmwHtBtcj"⟩,
  ⟨"Mende_Kikakui", ["mend"], "HCUyHocp"⟩,
  ⟨"Meroitic_Cursive", ["merc"], "DWPkxetcBt"⟩,
  ⟨"Meroitic_Hieroglyphs", ["mero"], "DWOeBf"⟩,
  ⟨"Miao", ["plrd"], "FIZoCweCehq"⟩,
  ⟨"Modi", [], "EBHgCqlj"⟩,
  ⟨"Mongolian", ["mong"], "JCibcabtgDkhBqDSCbm"⟩,
  ⟨"Mro", ["mroo"], "FHEuBebjeb"⟩,
  ⟨"Multani", ["mult"], "DZYugbabdbobk"⟩,
  ⟨"Myanmar", ["mymr"], "GBoGdCGAyBeDtBfBPAmt"⟩,
  ⟨"Nabataean", ["nbat"], "DWEiBeii"⟩,
  ⟨"Nag_Mundari", ["nagm"], "HBPoBp"⟩,
  ⟨"Nandinagari", ["nand"], "ECQyhcBtck"⟩,
  ⟨"New_Tai_Lue", ["talu"], "JRcBrezgkdb"⟩,
  ⟨"Newa", [], "EANoDnbe"⟩,
  ⟨"Nko", ["nkoo"], "CYiCgcc"⟩,
  ⟨"Nushu", ["nshu"], "FJIfaYVmPf"⟩,
  ⟨"Nyiakeng_Puachue_Hmong", ["hmnp"], "HAEaBsdncjeb"⟩,
  ⟨"Ogham", ["ogam"], "INoBc"⟩,
  ⟨"Ol_Chiki", ["olck"], "KSuBv"⟩,
  ⟨"Ol_Onal", ["onao"], "HBZkBqea"⟩,
  ⟨"Old_Hungarian", ["hung"], "DXRsBynByhf"⟩,
  ⟨"Old_Italic", ["ital"], "DUCeBjjc"⟩,
  ⟨"Old_North_Arabian", ["narb"], "DWYaBf"⟩,
  ⟨"Old_Permic", ["perm"], "DUFgBq"⟩,
  ⟨"Old_Persian", ["xpeo"], "DUIiBjen"⟩,
  ⟨"Old_Sogdian", ["sogo"], "DYQiBn"⟩,
  ⟨"Old_South_Arabian", ["sarb"], "DWWuBf"⟩,
  ⟨"Old_Turkic", ["orkh"], "DXMuCu"⟩,
  ⟨"Old_Uyghur", ["ougr"], "DYUqz"⟩,
  ⟨"Oriya", ["orya"], "EEjcbhcbcvbgbbbecicbcchcebbecr"⟩,
  ⟨"Osage", ["osge"], "DUSuBjeBj"⟩,
  ⟨"Osmanya", ["osma"], "DUQyBdcj"⟩,
  ⟨"Pahawh_Hmong", ["hmng"], "FHMeCrkjbgbufs"⟩,
  ⟨"Palmyrene", ["palm"], "DWDcBf"⟩,
  ⟨"Pau_Cin_Hau", ["pauc"], "EDCaCe"⟩,
  ⟨"Phags_Pa", ["phag"], "CLSqCd"⟩,
  ⟨"Phoenician", ["phnx"], "DWJgBbda"⟩,
  ⟨"Psalter_Pahlavi", ["phlp"], "DXHwrhdmg"⟩,
  ⟨"Rejang", ["rjng"], "CMBwBjla"⟩,
  ⟨"Runic", ["runr"], "IOuCwdk"⟩,
  ⟨"Samaritan", ["samr"], "DAuBtco"⟩,
  ⟨"Saurashtra", ["saur"], "CLVcCril"⟩,
  ⟨"Sharada", ["shrd"], "DZOyDr"⟩,
  ⟨"Shavian", ["shaw"], "DUPcBv"⟩,
  ⟨"Siddham", ["sidd"], "EBCiCbcBl"⟩,
  ⟨"SignWriting", ["sgnw"], "GWTkZbpebo"⟩,
  ⟨"Sinhala", ["sinh"], "FCzcbrdxbibacgdaefbabhgjccDULgt"⟩,
  ⟨"Sogdian", ["sogd"], "DYSeBp"⟩,
  ⟨"Sora_Sompeng", ["sora"], "DZIeyhj"⟩,
  ⟨"Soyombo", ["soyo"], "ECXsDe"⟩,
  ⟨"Sundanese", ["sund"], "KKuClJwh"⟩,
  ⟨"Sunuwar", ["sunu"], "EDLwBhoj"⟩,
  ⟨"Syloti_Nagri", ["sylo"], "CLQeBs"⟩,
  ⟨"Syriac", ["syrc"], "CQynbChccKmk"⟩,
  ⟨"Tagalog", ["tglg"], "ISmvja"⟩,
  ⟨"Tagbanwa", ["tagb"], "IWembcbb"⟩,
  ⟨"Tai_Le", ["tale"], "JPgBdce"⟩,
  ⟨"Tai_Tham", ["lana"], "JXgCkbBcckgjgn"⟩,
  ⟨"Tai_Viet", ["tavt"], "CMOuCoye"⟩,
  ⟨"Takri", ["takr"], "EBMeCfgj"⟩,
  ⟨"Tamil", ["taml"], "EJibbfdcbddbbabbdbdcdleedcbdcagaouEALhBxna"⟩,
  ⟨"Tangsa", ["tnsa"], "FHGqDabj"⟩,
  ⟨"Tangut", ["tang"], "FJIeaBfJBziBDnTsi"⟩,
  ⟨"Telugu", ["telu"], "EOembcbwbpcibcbdhbbccacdcjhi"⟩,
  ⟨"Thaana", ["thaa"], "CVwBx"⟩,
  ⟨"Thai", [], "FHxCffBb"⟩,
  ⟨"Tibetan", ["tibt"], "FRsCtbBjeBmbBjbobgeb"⟩,
  ⟨"Tifinagh", ["tfng"], "RCyCdhboa"⟩,
  ⟨"Tirhuta", ["tirh"], "EASmCtij"⟩,
  ⟨"Todhri", ["todr"], "DVDgBz"⟩,
  ⟨"Toto", [], "HATkBe"⟩,
  ⟨"Tulu_Tigalari", ["tutg"], "EAIqjbacabBlbjbacabdbjbbib"⟩,
  ⟨"Ugaritic", ["ugar"], "DUHcBdba"⟩,
  ⟨"Vai", ["vaii"], "CKMqLn"⟩,
  ⟨"Vithkuqi", ["vith"], "DVAekbobgbbbkbobgbb"⟩,
  ⟨"Wancho", ["wcho"], "HAVgCffa"⟩,
  ⟨"Warang_Citi", ["wara"], "ECHcDema"⟩,
  ⟨"Yezidi", ["yezi"], "DYLkBpbccb"⟩,
  ⟨"Yi", ["yiii"], "CIPkBSudCc"⟩,
  ⟨"Zanabazar_Square", ["zanb"], "ECUqCt"⟩]

/-- The scripts that characters are used with. -/
def scriptExtensions : List Value := [
  ⟨"Adlam", ["adlm"], "CIhaBgaJWoaFHhaGLRiCxejeb"⟩,
  ⟨"Ahom", [], "EBRcBacoew"⟩,
  ⟨"Anatolian_Hieroglyphs", ["hluw"], "ESSeWk"⟩,
  ⟨"Arabic", ["arab"],
    String.join [
      "CHcebIgbBhDcBvJgBebbfCwbBcIVnaFHhaCZRaEkqRccCbhaBgpEiebFeBMhBbEIeBeCpcCddDGLsdbBabbbacabjbd",
      "babagaeabababcbbbacabababababbbacdbgbdbdbabjbqfcbebqCab"]⟩,
  ⟨"Armenian", ["armn"], "BDwaVgBlcBxccDOZje"⟩,
  ⟨"Avestan", ["avst"], "HbaRFsbDFQcCbdg"⟩,
  ⟨"Balinese", ["bali"], "KFwCybBx"⟩,
  ⟨"Bamum", ["bamu"], "CLCqDjCVCqVw"⟩,
  ⟨"Bassa_Vah", ["bass"], "FHKiBdcf"⟩,
  ⟨"Batak", ["batk"], "KNgBzid"⟩,
  ⟨"Bengali", ["beng"], "BAyaCMubrbBadbhcbcvbgbaddcicbcdiaebbecyHDhabacbbaiaiacaeaccCBAfa"⟩,
  ⟨"Bhaiksuki", ["bhks"], "EDOiibBsbnkBc"⟩,
  ⟨"Bopomofo", ["bopo"], "BBjabcnaqbRBxcejbmkdcagaHnajBqEiBfCZLtbKwe"⟩,
  ⟨"Brahmi", ["brah"], "DZAeCzeBjja"⟩,
  ⟨"Braille", ["brai"], "PDwJv"⟩,
  ⟨"Buginese", ["bugi"], "JWaBbcbCCKta"⟩,
  ⟨"Buhid", ["buhd"], "IUnbjt"⟩,
  ⟨"Canadian_Aboriginal", ["cans"], "HOyYpVoCrDTPqp"⟩,
  ⟨"Carian", ["cari"], "HbaLZmacaFGdaDCLqBw"⟩,
  ⟨"Caucasian_Albanian", ["aghb"], "BDsaBsaBsaDTQnBzla"⟩,
  ⟨"Chakma", ["cakm"], "DTmjCKejDTFqCabr"⟩,
  ⟨"Cham", [], "CMJwCcjncjcd"⟩,
  ⟨"Cherokee", ["cher"], "BDocbagbwblbGFuDhcfCFJeDb"⟩,
  ⟨"Chorasmian", ["chrs"], "DYXcBb"⟩,
  ⟨"Common", ["zyyy"],
    String.join [
      "aCmBafBaBublbbbexaBfaRhcbjbadabibabffectEwagabaYnaIhaTwaCAuaPpdGDblcBgbBebjbbbgbkdkborBgClB",
      "lbccfbBabqBpceZpwkvBJrJwYdcBfbEaTswbxcjbdbabzQcadananavaUjxBfaBxomdGfjfDrBfaJToClBHSqzDycBL",
      "oaobBFHsjwuclbsbdFrabBfBafBafExgbgkePmmBzBsCYNbJpgQtGaElCiJlkBmcCjdqibhBdeCiIftmtmDiBbgFfDg",
      "bCsbbcacbcdblbabgbCmbdchbgbBbbdbebadgbNbcLfcBxHThCpCyCiBBeBreDvmocobobBkkGrCezbbnBreixfFyBL",
      "veqdmdEoeDqgleapleCdijgBniBdclebCkNbmncmdjfCdhockgihFqbDxBSUXbaBeDr"]⟩,
  ⟨"Coptic", ["copt", "qaac"], "HbaWmadbbaEebEenPJkElfgKtaDCPcBb"⟩,
  ⟨"Cuneiform", ["xsux"], "EFBsBJlDyEgbelHn"⟩,
  ⟨"Cypriot", ["cprt"], "DTImceBsdiCOmfcabBrbbdaca"⟩,
  ⟨"Cypro_Minoan", ["cpmn"], "DTImbRQkDu"⟩,
  ⟨"Cyrillic", ["cyrl"], "BAyaCpcbababacafaJeLrIVokGeaCyaExaGApBfCpaBTLkDrBHEcbDHPgCjBha"⟩,
  ⟨"Deseret", ["dsrt"], "DUMaDb"⟩,
  ⟨"Devanagari", ["deva"], "BAyaCJrDecBqHIeBmbbBNaaBZFrjGkBfBREmj"⟩,
  ⟨"Dives_Akuru", ["diak"], "ECKugcachbbbBdbbcljj"⟩,
  ⟨"Dogra", ["dogr"], "DOmlCIDcjBQIoCh"⟩,
  ⟨"Duployan", ["dupl"], "HbaWtbbaybQIhaFUQlEcfmdihjch"⟩,
  ⟨"Egyptian_Hieroglyphs", ["egyp"], "ELDgBQrkFXq"⟩,
  ⟨"Elbasan", ["elba"], "HbaWraDTScBn"⟩,
  ⟨"Elymaic", ["elym"], "DYYyw"⟩,
  ⟨"Ethiopic", ["ethi"],
    "BEcaFRdCubdcgbabdcBobdcBgbdcgbabdcobCebdcCocBfdzJVawjgbgbgbgbgbgbgbgBVKcfcfcfjgbgEPYfgbdbbbo"⟩,
  ⟨"Garay", ["gara"], "CHoaoadaDVQuBldBcib"⟩,
  ⟨"Georgian", ["geor"], "HbaBVlaEFeBlbafacBvEJwBqccBJmaEUnBlbafaJza"⟩,
  ⟨"Glagolitic", ["glag"], "HbaWpabaOsacaJxaEIraFViaEKrDrSpaBTNfaEOTkgbqcgbbbe"⟩,
  ⟨"Gothic", ["goth"], "HbaWqbcaBoaDSYoBa"⟩,
  ⟨"Grantha", ["gran"], "DNtbrbYqnGKaabbBecdbBNaaDNRjdbhcbcvbgbbbebjcbcccagafgcgdeERrbba"⟩,
  ⟨"Greek", ["grek"],
    String.join [
      "HbaWmbcababakaBuacaBqhcdbaeababcbabtbCkopJNqeByeeeDgcMgvcfcBlcfchbabababBecCabobncfbsccbiDq",
      "aHsaCAJeaBGNiDaraDAXrCr"]⟩,
  ⟨"Gujarati", ["gujr"], "DNtbrbKxcbibcbvbgbbbecjbcbccapdclhgCHNsj"⟩,
  ⟨"Gunjala_Gondi", ["gong"], "HbaDHkbEANifbbbBkbbbfhj"⟩,
  ⟨"Gurmukhi", ["guru"], "DNtbrbFzcbfebcvbgbbbbbbcabeebccdahdbahqCHSzj"⟩,
  ⟨"Gurung_Khema", ["gukh"], "DOnaFADeCf"⟩,
  ⟨"Han", ["hani"],
    String.join [
      "HbaRIuzbDkmIfBapbcbmbmbmcagiHfaFspBgBljaBwBnCeBwplBzaDkykeDsBebJTnCmBFBjCQyhBFBcObcEbBHrbKw",
      "eBQPobmbBLRarLRybFEsCLFbBgGDtgIncINpoLBkpXxDQwUvCFyHHyfGFf"]⟩,
  ⟨"Hangul", ["hang"], "GLkJvLJlcejbmocgaHnaCbDpEjBeCnBeBTAnBcYtQNrmweBwOMzbKweCgBedfcfcfcc"⟩,
  ⟨"Hanifi_Rohingya", ["rohg"], "CHoaoadaBgaFraDVHjBnij"⟩,
  ⟨"Hanunoo", ["hano"], "ITsw"⟩,
  ⟨"Hatran", ["hatr"], "DWIasbbfe"⟩,
  ⟨"Hebrew", ["hebr"], "BDvbYyCciBaefDOVwzbebabbbbbj"⟩,
  ⟨"Hiragana", ["hira"], "SErcejbmqfbaebdDhchDmbCZTgbKwekaBtbCOUrLasaBdcYMva"⟩,
  ⟨"Imperial_Aramaic", ["armi"], "DWBwvbi"⟩,
  ⟨"Inherited", ["qaai", "zinh"],
    "BEdacablbbdgcacpbbbrbebdCGmbGOxBeBDbCbbabeUebHmBfDFSqpqnBLnaCZQoBtcwUycrhcgBedBTLHiJf"⟩,
  ⟨"Inscriptional_Pahlavi", ["phli"], "DXGqsfh"⟩,
  ⟨"Inscriptional_Parthian", ["prti"], "DXFkvch"⟩,
  ⟨"Javanese", ["java"], "CMEyCzbkeb"⟩,
  ⟨"Kaithi", ["kthi"], "DOojNXxaBUFejBNMsCoka"⟩,
  ⟨"Kannada", ["knda"], "DNtbrbBEombcbwbjbecibcbdhbgbbdcjbcGAeabbgaxabaCASxf"⟩,
  ⟨"Katakana", ["kana"], "BDtaBdaQZtcejbmqfbaebDnddDrJgpIaBubDjCYWbbKwCkCOUadbgbbbaLbcByaod"⟩,
  ⟨"Kawi", [], "EERwqbBodBc"⟩,
  ⟨"Kayah_Li", ["kali"], "CMAaBv"⟩,
  ⟨"Kharoshthi", ["khar"], "DWTcdbbfhbcbBcccejhi"⟩,
  ⟨"Khitan_Small_Script", ["kits"], "FJIiaKGxSbBpa"⟩,
  ⟨"Khmer", ["khmr"], "IXkDpcjgjSsBf"⟩,
  ⟨"Khojki", ["khoj"], "EDijCHOijBOBmrbBu"⟩,
  ⟨"Khudawadi", ["sind"], "DOmbCIDmjBOIgCgfj"⟩,
  ⟨"Kirat_Rai", ["krai"], "FIIiCf"⟩,
  ⟨"Lao", ["laoo"], "FMvbbabebxbabwcebabgbjcd"⟩,
  ⟨"Latin", ["latn"],
    String.join [
      "CnzgzBvamacafwbBebRgdakabcbajabageBbobbbamacchbbbBmafaemKrbBVebCXkaEOiBlgBwfdfmbCrCfahJvLra",
      "CnanaqmDfaCfbgaBbarBoECtBfPraBTUmhBaDxdCocbbabhvnLqaTtBqbibdBEDqgBOkzgzDCffbBpbiDDNpBegf"]⟩,
  ⟨"Lepcha", ["lepc"], "KPsCddodc"⟩,
  ⟨"Limbu", ["limb"], "DOnaFXqBebleleadl"⟩,
  ⟨"Linear_A", ["lina"], "DTItBsBVgLyjvkh"⟩,
  ⟨"Linear_B", ["linb"], "DSYqlbzbsbbbocnBiEsfceBsdi"⟩,
  ⟨"Lisu", [], "BAyaqaRDkbBSFsBvBUMaa"⟩,
  ⟨"Lycian", ["lyci"], "MGoaDHQrBc"⟩,
  ⟨"Lydian", ["lydi"], "HbaRFtaDEXqzfa"⟩,
  ⟨"Mahajani", ["mahj"], "HbaDHklCIDcjBNUsBm"⟩,
  ⟨"Makasar", ["maka"], "EEQqy"⟩,
  ⟨"Malayalam", ["mlym"], "DNtbrbBJmmbcbBybcbfepczFVeaxaCASzc"⟩,
  ⟨"Mandaic", ["mand"], "CJoaTrBbca"⟩,
  ⟨"Manichaean", ["mani"], "CJoaDUQxBmel"⟩,
  ⟨"Marchen", ["marc"], "EDSqBfcvbn"⟩,
  ⟨"Masaram_Gondi", ["gonm"], "DOmbEAJqgbbbBrdabbbiij"⟩,
  ⟨"Medefaidrin", ["medf"], "FISeDm"⟩,
  ⟨"Meetei_Mayek", ["mtei"], "CMSmwHtBtcj"⟩,
  ⟨"Mende_Kikakui", ["mend"], "HCUyHocp"⟩,
  ⟨"Meroitic_Cursive", ["merc"], "DWPkxetcBt"⟩,
  ⟨"Meroitic_Hieroglyphs", ["mero"], "MGraDKHmBf"⟩,
  ⟨"Miao", ["plrd"], "FIZoCweCehq"⟩,
  ⟨"Modi", [], "CLSajBPOwCqlj"⟩,
  ⟨"Mongolian", ["mong"], "JCizgDkhBqCWaaFZtbfdDJFwm"⟩,
  ⟨"Mro", ["mroo"], "FHEuBebjeb"⟩,
  ⟨"Multani", ["mult"], "DYkjDWAagbabdbobk"⟩,
  ⟨"Myanmar", ["mymr"], "GBoGdCFUcaGvBeDtBfBPAmt"⟩,
  ⟨"Nabataean", ["nbat"], "DWEiBeii"⟩,
  ⟨"Nag_Mundari", ["nagm"], "HBPoBp"⟩,
  ⟨"Nandinagari", ["nand"], "DOmbBImjGBhaiahaCASrfBQYshcBtck"⟩,
  ⟨"New_Tai_Lue", ["talu"], "JRcBrezgkdb"⟩,
  ⟨"Newa", [], "EANoDnbe"⟩,
  ⟨"Nko", ["nkoo"], "CHoaoadaQaCgccDOWsb"⟩,
  ⟨"Nushu", ["nshu"], "FJIfaYVmPf"⟩,
  ⟨"Nyiakeng_Puachue_Hmong", ["hmnp"], "HAEaBsdncjeb"⟩,
  ⟨"Ogham", ["ogam"], "INoBc"⟩,
  ⟨"Ol_Chiki", ["olck"], "KSuBv"⟩,
  ⟨"Ol_Onal", ["onao"], "DOmbGYKwBqea"⟩,
  ⟨"Old_Hungarian", ["hung"], "MGoacaFGdapaDGEgBynByhf"⟩,
  ⟨"Old_Italic", ["ital"], "DUCeBjjc"⟩,
  ⟨"Old_North_Arabian", ["narb"], "DWYaBf"⟩,
  ⟨"Old_Permic", ["perm"], "HbaWmafckaOdaDSMuBq"⟩,
  ⟨"Old_Persian", ["xpeo"], "DUIiBjen"⟩,
  ⟨"Old_Sogdian", ["sogo"], "DYQiBn"⟩,
  ⟨"Old_South_Arabian", ["sarb"], "DWWuBf"⟩,
  ⟨"Old_Turkic", ["orkh"], "MGoaFGfaDFZzCu"⟩,
  ⟨"Old_Uyghur", ["ougr"], "CJoaDUSvaBSfz"⟩,
  ⟨"Oriya", ["orya"], "DNtbrbPvcbhcbcvbgbbbecicbcchcebbecrGPeaxa"⟩,
  ⟨"Osage", ["osge"], "BDpacagaCyaDTLvBjeBj"⟩,
  ⟨"Osmanya", ["osma"], "DUQyBdcj"⟩,
  ⟨"Pahawh_Hmong", ["hmng"], "FHMeCrkjbgbufs"⟩,
  ⟨"Palmyrene", ["palm"], "DWDcBf"⟩,
  ⟨"Pau_Cin_Hau", ["pauc"], "EDCaCe"⟩,
  ⟨"Phags_Pa", ["phag"], "JCkbbaDCjaFZuaBTNxCd"⟩,
  ⟨"Phoenician", ["phnx"], "DWJgBbda"⟩,
  ⟨"Psalter_Pahlavi", ["phlp"], "CJoaDUYhrhdmg"⟩,
  ⟨"Rejang", ["rjng"], "CMBwBjla"⟩,
  ⟨"Runic", ["runr"], "IOuDk"⟩,
  ⟨"Samaritan", ["samr"], "DAuBtcoOJqa"⟩,
  ⟨"Saurashtra", ["saur"], "CLVcCril"⟩,
  ⟨"Sharada", ["shrd"], "DNtaHKfabacbcaCATrfcaBNWpDr"⟩,
  ⟨"Shavian", ["shaw"], "HbaDUIaBv"⟩,
  ⟨"Siddham", ["sidd"], "EBCiCbcBl"⟩,
  ⟨"SignWriting", ["sgnw"], "GWTkZbpebo"⟩,
  ⟨"Sinhala", ["sinh"], "DOmbBOlcbrdxbibacgdaefbabhgjccFRpaDOTqt"⟩,
  ⟨"Sogdian", ["sogd"], "CJoaDWIpBp"⟩,
  ⟨"Sora_Sompeng", ["sora"], "DZIeyhj"⟩,
  ⟨"Soyombo", ["soyo"], "ECXsDe"⟩,
  ⟨"Sundanese", ["sund"], "KKuClJwh"⟩,
  ⟨"Sunuwar", ["sunu"], "BDobbajacaBcadaECGkBhoj"⟩,
  ⟨"Syloti_Nagri", ["sylo"], "DOmbEyjCHWiBs"⟩,
  ⟨"Syriac", ["syrc"], "BDrbcbbavacchbbaBCdaobcaBgakkBaaFnnbChccKmkIEfaba"⟩,
  ⟨"Tagalog", ["tglg"], "ISmvjavb"⟩,
  ⟨"Tagbanwa", ["tagb"], "IUnbBpmbcbb"⟩,
  ⟨"Tai_Le", ["tale"], "BDobfbdaEZzjDKwBdce"⟩,
  ⟨"Tai_Tham", ["lana"], "JXgCkbBcckgjgn"⟩,
  ⟨"Tai_Viet", ["tavt"], "CMOuCoye"⟩,
  ⟨"Takri", ["takr"], "DOmbCIDmjBPTuCfgj"⟩,
  ⟨"Tamil", ["taml"], "DNtbrbUubbfdcbddbbabbdbdcdleedcbdcagaouGKdaCBBkaBOEfabaCdbETfBxna"⟩,
  ⟨"Tangsa", ["tnsa"], "FHGqDabj"⟩,
  ⟨"Tangut", ["tang"], "SEapTbaEQKmaBfJBziBDnTsi"⟩,
  ⟨"Telugu", ["telu"], "DNtbrbZqmbcbwbpcibcbdhbbccacdcjhiGFaaxa"⟩,
  ⟨"Thaana", ["thaa"], "CHoaobcaCmjKsBxDPGqaka"⟩,
  ⟨"Thai", [], "BAyaBaaBraBtaEClCffBb"⟩,
  ⟨"Tibetan", ["tibt"], "FRsCtbBjeBmbBjbobgebMEvd"⟩,
  ⟨"Tifinagh", ["tfng"], "BDqabacabaPZaCdhboa"⟩,
  ⟨"Tirhuta", ["tirh"], "DNtbrbHKmaCASzjBPAcCtij"⟩,
  ⟨"Todhri", ["todr"], "BDpacacajabaCwaDTWbBz"⟩,
  ⟨"Toto", [], "BAyaGZSlBe"⟩,
  ⟨"Tulu_Tigalari", ["tutg"], "EXajGBqabaCASxfHfaBOJejbacabBlbjbacabdbjbbib"⟩,
  ⟨"Ugaritic", ["ugar"], "DUHcBdba"⟩,
  ⟨"Vai", ["vaii"], "CKMqLn"⟩,
  ⟨"Vithkuqi", ["vith"], "DVAekbobgbbbkbobgbb"⟩,
  ⟨"Wancho", ["wcho"], "HAVgCffa"⟩,
  ⟨"Warang_Citi", ["wara"], "ECHcDema"⟩,
  ⟨"Yezidi", ["yezi"], "CHoaoadaCmjDWAgBpbccb"⟩,
  ⟨"Yi", ["yiii"], "SErbfjchIpaBQBcBSudCcBIIce"⟩,
  ⟨"Zanabazar_Square", ["zanb"], "ECUqCt"⟩]

end ClassScript.Unicode

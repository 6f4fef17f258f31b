import ClassScript.Unicode.Value

/-!
Properties that characters have or have not, as data.
-/

namespace ClassScript.Unicode

/-- The properties that do not follow from others. -/
def binaryProperties : List Value := [
  ⟨"ASCII_Hex_Digit", ["ahex"], "BwjhfBaf"⟩,
  ⟨"Bidi_Control", ["bidic"], "CIeaJVlbBaeCdd"⟩,
  ⟨"Bidi_Mirrored", ["bidim"],
    String.join [
      "BobsabaBcabaBdabaBtapaFMsdCUnbDQqbkbCcbobGvaHkddfdadbddbdbabaeifabrfdjbbabhbBfcdfajbcsfbjec",
      "bexcpidubhbBPtnCwacdbbbcfdfcdnPnvcfbniahfdaeebbceeabccbkfcbmsbdcabacabdfbgcyblbedbbcbeBqchb",
      "BnfabadefceadebaJwaTvddbbbobcjBrhQljchDACrffbGgbsabaBcabaBdababbbbDDPnaCfaCfaCfaCfa"]⟩,
  ⟨"Changes_When_Casefolded", ["cwcf"],
    String.join [
      "CnzDmakwbhBgabababababababababababababababababababababababababababacababababababababbbababa",
      "babababababababababababababababababababbbabababbbabbbccdbbbcdbbbbababbbacabbbcbabbdahbbbbbb",
      "abababababababacababababababababacbbabcbabababababababababababababababababababababababababa",
      "bababahbbbcabdbabababaJmaBqabadaiagabcbabbbqbiwamcdbbababababababababababababbcbbabbcByBwab",
      "abababababababababababababababajabababababababababababababababababababababababababababbbaba",
      "babababacababababababababababababababababababababababababababababababababababababababababab",
      "ababababababacBlBwaEFgBlbafaBFefDFujgBqccMiabababababababababababababababababababababababab",
      "abababababababababababababababababababababababababababababababababababababababababababababa",
      "bababababafbcababababababababababababababababababababababababababababababababababababababab",
      "abababababababababajhifkhihiflabababaihqBvcccffccfldmefccfLladbgaBtptaBFmzCSuBvBwabccababab",
      "dbacaicbabababababababababababababababababababababababababababababababababababababababababa",
      "bababababababaiabaeaBTYjababababababababababababababababababababababatababababababababababa",
      "bababaFfababababababadababababababababababababababababababababababababababababababakababbba",
      "bababaeabacabadababababababababababebebabababababababdbabbdafabababayaBIgDbBEAigmeBNtzBUzBn",
      "FgBjGakbobgbbCQcByGbvEGoBfBGJwBfBULkBh"]⟩,
  ⟨"Changes_When_Casemapped", ["cwcm"],
    String.join [
      "CnzgzCgakwbBebClbDfbBbcncbbaeDobrgBabbbabbdbbdbecabbcahacabbdffakbGkaBqdcbdcbagabcbabtbBudB",
      "gbebFciGjbBlkBmEFgBlbafacBqccZwDhcfDFukfBqccHdadaqaEjFzcabEncfcBlcfchbabababBecCabgbadcbgdd",
      "cfemfcbgLladbgaBbarBfdbBFlBzCRuEibbbbhDxhddbmBlbafaBTWcBtsBbFencCjjodccebybBdcbegybBHcaBcDb",
      "BEAigmeBNtzgzBTtDbDsBjeBjEmkbobgbbbkbobgbbCOpBynByDpvkvEFiClBGIqClBUKeCp"]⟩,
  ⟨"Changes_When_Lowercased", ["cwl"],
    String.join [
      "CnzDxwbgBhabababababababababababababababababababababababababababacabababababababacababababa",
      "bababababababababababababababababababbbabadbbabbbccdbbbcdbbbbababbbacabbbcbabbdahbbbbbbabab",
      "abababababacababababababababacbbabcbabababababababababababababababababababababababababababa",
      "bahbbbcabdbabababaLdabadaiagabcbabbbqbiBjaiabababababababababababafacabbcByBwababababababab",
      "abababababababababajabababababababababababababababababababababababababababbbabababababacaba",
      "bababababababababababababababababababababababababababababababababababababababababababababab",
      "acBlEHdBlbafaBBuDhDGlagBqccMiababababababababababababababababababababababababababababababab",
      "abababababababababababababababababababababababababababababababababababababababababababajaba",
      "bababababababababababababababababababababababababababababababababababababababababababababab",
      "abajhifkhihiflabababaihyhihihieleldmeleLladbgaBtptaBFmzCSuBvBwabccabababdbacaicbabababababa",
      "bababababababababababababababababababababababababababababababababababababababababababaiabae",
      "aBTYjababababababababababababababababababababababatabababababababababababababaFfabababababa",
      "badababababababababababababababababababababababababababababababakababbbabababaeabacabadabab",
      "ababababababababebebabababababababdbabbdafabababayaBHAhzBUzBnFgBjGakbobgbbCQcByGbvEGoBfBGJw",
      "BfBULkBh"]⟩,
  ⟨"Changes_When_Titlecased", ["cwt"],
    String.join [
      "DtzCgaBpxbhbabababababababababababababababababababababababababababacabababababababbbabababa",
      "bababababababababababababababababababacababccabacadafacadccacababacaeacadabacadabaeabbbbbab",
      "abababababababbbababababababababcbabadabababababababababababababababababababadababababababa",
      "babaiacbbaeababababfbbbabbdbbdbecabbcahacabbdffakbGkaBrabadadcsaBbBibbdcbababababababababab",
      "ababebacacaCaBvbababababababababababababababababajababababababababababababababababababababa",
      "babababababacababababababbbabababababababababababababababababababababababababababababababab",
      "abababababababababababababababaBxBmFMefDFuibaJeadaqaEkababababababababababababababababababa",
      "bababababababababababababababababababababababababababababababababababababababababababababab",
      "ababababababababababgfababababababababababababababababababababababababababababababababababa",
      "bababababababababababababiifkhihifkhihinchihihiebbgadcbbidcbihkcbbNeaBhpeaBGlzCTqBvbadbbaba",
      "bagacakabababababababababababababababababababababababababababababababababababababababababab",
      "abababababababaiabaeamBlbafaBTWdababababababababababababababababababababababatababababababa",
      "bababababababaFfababababababadababababababababababababababababababababababababababababababa",
      "kabacababababaeaeabbcabababababababababalabababababababaeabacadafababaBaaBHcaBcDbBEAigmeBOz",
      "zBVhBnFgBjFzkbobgbbCRbByEvvEGoBfBGJwBfBULmBh"]⟩,
  ⟨"Changes_When_Uppercased", ["cwu"],
    String.join [
      "DtzCgaBpxbhbabababababababababababababababababababababababababababacabababababababbbabababa",
      "bababababababababababababababababababacababccabacadafacadccacababacaeacadabacadabafbbbbbbab",
      "ababababababbbababababababababbbbbadabababababababababababababababababababadabababababababa",
      "baiacbbaeababababfbbbabbdbbdbecabbcahacabbdffakbGkaBrabadadcsaBbBibbdcbabababababababababab",
      "abebacacaCaBvbababababababababababababababababajabababababababababababababababababababababa",
      "bababababacababababababbbababababababababababababababababababababababababababababababababab",
      "ababababababababababababababaBxBmEHcBqccBDgfDFuibaJeadaqaEkabababababababababababababababab",
      "abababababababababababababababababababababababababababababababababababababababababababababa",
      "bababababababababababababgfabababababababababababababababababababababababababababababababab",
      "abababababababababababababababiifkhihifkhihincCabbeabadcbbeaddcbihkcbbeaMzaBhpeaBGlzCTqBvba",
      "dbbababagacakababababababababababababababababababababababababababababababababababababababab",
      "ababababababababababaiabaeamBlbafaBTWdababababababababababababababababababababababatabababa",
      "babababababababababaFfababababababadabababababababababababababababababababababababababababa",
      "bababakabacababababaeaeabbcabababababababababalabababababababaeabacadafababaBaaBHcaBcDbBEAi",
      "gmeBOzzBVhBnFgBjFzkbobgbbCRbByEvvEGoBfBGJwBfBULmBh"]⟩,
  ⟨"Dash", [], "BtaCAuaBzaFKjaBNpaDBdfCjaBnapaPaaEOiacaBfbeaBcaReataEhaCZWabBlakaGnaFLoaMga"⟩,
  ⟨"Default_Ignorable_Code_Point", ["di"],
    "GraZxaBBoaEGwbCKhbDheDApeBaeBxpGKyaCZMppJfaGeaDbiCTLndHWxhBTKZlGBn"⟩,
  ⟨"Deprecated", ["dep"], "MraBYvaDKtabaDCjbDIjfBAvbBZRYka"⟩,
  ⟨"Diacritic", ["dia"],
    String.join [
      "DqabaCtagaeacbTjGcbhffrbeajbJteIbaCdqbBababbbaFehebFebebdcCpBaDnkCgkBibEwhBpjqBbCjaqaddBcaC",
      "waqaEgaqaEgaqaBvcCiaqahaEpaEgaqaEgaqaEfbqaEuaEhamfbaEdaneCxbBbababaebCocbbCkaEiabbBobeezgba",
      "kbBBdcBKmbBeaFskjaNjcLgauhcaBwockEaapaBmiCcbCgalbCobCmfDeyeagaccByCkDllBlkRdabclcncncnbEXkc",
      "MfaTmfEbdDraBSMkambbaBcbDeboBhDycEfbmaBlaFvaBbrCfdBkaDramaBkaFtcCndBzaDwejcEybBDZsaBDppKkab",
      "aBvaBtbCpaBDkaBTnfbBpbiYnceaGjbVzfBmaBaePjcCskBxdHkaBpaCubEqbCkaCyajcEabGwbDcbqaygdeDlcbbnb",
      "DradaEtbJrbEwaEobElaKjbJybeaGaaDfasaDdaQfaJyabbDdaQjbxaHYaoQZpaDSaeChgVsbVaqDcbYGcdbgbbLThB",
      "tcwUycdfihcgBedFMwCjHmgOlaCjdBDmbBCigEfcbc"]⟩,
  ⟨"Emoji", [],
    String.join [
      "BjagafjEhaeaLYramaIiawaDmfpbOdbmaGkazkecHraIxbkajaCgdbejacacbcaeacabbcadadbicfabafllbcabbba",
      "sacbsfbabbdbfacbeblbfbcafbbabbubffbdcaeacacfbacababagadagakbpacaeabaecbalbBwcjaoaoaOibRvctb",
      "BzaeaBVuamaXdabaGMRqaHuaGebmboacjCxzbbxauacivbGsBhcEhcbbccDeccbKcbCklfbxhbchmacdcaebnbcaibj",
      "afcmciccabaeagadagDhBwCrfhccejdabbdacjItleaKxBubjbHcEimdjfCdhockgi"]⟩,
  ⟨"Emoji_Component", ["ecomp"], "BjagafjMBjaIfaDFTraDOIwzTneCEadBSVUqDr"⟩,
  ⟨"Emoji_Modifier", ["emod"], "HHIxe"⟩,
  ⟨"Emoji_Modifier_Base", ["ebase"],
    String.join [
      "OLhaIlaqdGSJvaCiccaccEnbckvsdaecbchabayaHtbeavaebGscdeDfaqcjalaWdacaihgajjccCeaCjbbbbarcbmI",
      "vcBqi"]⟩,
  ⟨"Emoji_Presentation", ["epres"],
    String.join [
      "NHqbHxddacaUbbvbBylBratanaibrbfbiafavahbbaeacahaebBcaBjabaecbaCjcyaoaBHbbBzaeaGPLeaHuaHiacj",
      "CxzbayauacebcvbGsBgmibCrbvmBqeemqdadCsbabHecCkndbxsaBabnaDiDgBwCrgadcccedlbhiItleaKxBubjbHc",
      "EimdjfCdhockgi"]⟩,
  ⟨"Extended_Pictographic", ["extpict"],
    String.join [
      "GnaeaLYramaIiawaDmfpbOdbmaDraCsazkecHraIxbkajaCgdbfblbEjkEnckbabagadagakbpacaeabaecbaleBtcj",
      "aoaoaOibRvctbBzaeaBVuamaXdabaGMRmJvncBfaCifmboacjsCeBbokauacibdjQrfMfiKfBwExEmlDhBqmdCehkfB",
      "ohBeDdmBubjbQyJwBNh"]⟩,
  ⟨"Extender", ["ext"],
    String.join [
      "HbaUqbBHuaQzaYgaFhaDlaBCyaExaDNfaCeaXnaPiaCqaHKjaBreDzbDpcBQBuaCGsaBLaawaFhaEeavbBFZvaDBkbC",
      "FbaBbaeaBVbaLhaEmbTecBVjaBEOfbBTkbbaBQYabBUfaBGuc"]⟩,
  ⟨"Grapheme_Link", ["grlink"],
    String.join [
      "DNpaExaExaExaExaExaExaExaEfbqaEuaEhaExaHtaGybCPlbBeaGbaZdaItaDxbCsbGQtaBUKkaBlaFvaFmaEeaLxa",
      "JmaBJSraCHiaBpaoaCfaErbFjaEmaGyaDuaEycEjaExaJsaExaEoaEmaKjaJzbGfaDfasaDdaQfaKabDdaQjbYZca"]⟩,
  ⟨"Hex_Digit", ["hex"], "BwjhfBafDSLljhfBaf"⟩,
  ⟨"Hyphen", [], "BtaExaBVwaGZzaDBdbFIbaBClaCZUlaGnaDja"⟩,
  ⟨"IDS_Binary_Operator", ["idsb"], "SEabcjTda"⟩,
  ⟨"IDS_Trinary_Operator", ["idst"], "SEcb"⟩,
  ⟨"IDS_Unary_Operator", ["idsu"], "SEob"⟩,
  ⟨"ID_Compat_Math_Continue", [], "GwbfaMAgadkboOhaeawaGJJeazaBfazaBfazaBfazaBfaza"⟩,
  ⟨"ID_Compat_Math_Start", [], "MWwaeawaGJJeazaBfazaBfazaBfazaBfaza"⟩,
  ⟨"Ideographic", ["ideo"],
    String.join [
      "SEwbziocBLdJTnCmBFBjBHSiObcEbBSIkaBbJBziBVpBpjNUlPfBDEiCLFbBgGDtgIncINpoLBkpXxDQwUvCFyHHyfG",
      "Ff"]⟩,
  ⟨"Join_Control", ["joinc"], "MDob"⟩,
  ⟨"Logical_Order_Exception", ["loe"], "FKieEteEDsccaCCXmbcabb"⟩,
  ⟨"Modifier_Combining_Mark", ["mcm"], "CKibcaFbagadbSnbbcdaBfa"⟩,
  ⟨"Noncharacter_Code_Point", ["nchar"],
    "DSDcBfUgbDSYobDSYobDSYobDSYobDSYobDSYobDSYobDSYobDSYobDSYobDSYobDSYobDSYobDSYobDSYobDSYob"⟩,
  ⟨"Other_Alphabetic", ["oalpha"],
    String.join [
      "BGfaBdmWenbabbbbbaCukBwmbgqaDxgedcbeaBjaBepDykDxbdibcbdEcaCildggtCcbcobbfckbBdcCggcbcbkakbB",
      "dcCgeebcbeaBebdalcCghbcbbvbwcecCggcbcbjbkbBeaChedcbckaBoeCfgbcbciblbBdcCggbcbciblbpamdCggbc",
      "bckakbBdcCxfbabhsbCjacgsaDvacfbbqaGhsjkbBjEglbacdxdecbccgddnlbakdCLobBebBebBebCosHgbBiaEole",
      "iIoeCfjctCwblcBxeBwoCicBeicbCfkBysPwBhCOnBzDKgBfBTQahBibNqaiaxeDkbBypbaCfaBmeBclBtdBwlBlaCp",
      "nmaibBtcByabccbfaBsefaJdhBDZvaDEdeCMgcbbfdBEidCnaMjbDbaJzcCbnBtblcBtijaCjcBklsbCfcBwmobDoic",
      "agacaGbjxdCggcbcbkakbDgibacabdbbDzmbcEcrJdgcgBdbDeobaEckDznJxmJnfbbcbdabaFmgcfeaBcjBqebdskB",
      "unPrhbgDfvbnEsfdabbbcbadaCoebbbdNkdjbbaBwgdcYYnqFJcabCchdDpbBDAyaNKjgbqcgbbbeDwaDHvaCZwzgzg",
      "z"]⟩,
  ⟨"Other_Default_Ignorable_Code_Point", ["odi"],
    "BGpaFIlbCKhbDHnaGLiaDACpaDbiBWMIhabBdDsExJgFIl"⟩,
  ⟨"Other_Grapheme_Extend", ["ogrext"],
    String.join [
      "DRyayaNuayaDyayaIyabaebbbjbDzayaEpapaDMraBeaBNkafabafbDxaCtbBOiaGCvbBTWtaEeaBGNlbGWmaEmaKea",
      "oajaDsajacabcfaIqamaJhaKcaYjamaCHfaBEOkbBKXnbgfBTLAzDr"]⟩,
  ⟨"Other_ID_Continue", ["oidc"], "HbaBBraGAjiCLcaCIzbGKraDAEja"⟩,
  ⟨"Other_ID_Start", ["oids"], "JHlbDGjavaFVwb"⟩,
  ⟨"Other_Lowercase", ["olower"],
    "GoapaThihbBeeDsaCaaFCzaEPzCknaBiBkBAnanaqmIdpBGqzCWobBUGkbIcaEzcdbBHidjaBIWsaccbBpbiDDZhCj"⟩,
  ⟨"Other_Math", ["omath"],
    String.join [
      "DqaBHxccaBabcbKQyaBbclaBgdybobCnmeadbeesaeacjbadegadbcbbcbfddfeCxecdbbbbbabecbebercbbabgbag",
      "bLedGmbbayaraRdbmifefbcbdeoabacfybCfabaBddjbNebBfjPnvCldBgbDCLfabaeaIdabaDCOvDgbCsbbcacbcdb",
      "lbabgbCmbdchbgbBbbdbebadgbNbcybybBebybBebybBebybBebybhcBxIIqdbBabbbacabjbdbabagaeabababcbbb",
      "acabababababbbacdbgbdbdbabjbqfcbebq"]⟩,
  ⟨"Other_Uppercase", ["oupper"], "MQqpBGgzGSIyzgzgz"⟩,
  ⟨"Pattern_Syntax", ["patsyn"],
    "BhokgBadbaBadBigbabbbabbeaeadaxaBfaLUexiocsbjLtBBrGeYfBeBRnTsExOvceypaCZQzbKbb"⟩,
  ⟨"Pattern_White_Space", ["patws"], "jesaDwaLYmbyb"⟩,
  ⟨"Prepended_Concatenation_Mark", ["pcm"], "CHcfIhaBxaOubDcaDVXyapa"⟩,
  ⟨"Quotation_Mark", ["qmark"], "BiaeaFbapaLWuhzbFIdaRpdncDABpdHhaeaDmb"⟩,
  ⟨"Radical", [], "RPwzbDkmIf"⟩,
  ⟨"Regional_Indicator", ["ri"], "HGOkz"⟩,
  ⟨"Sentence_Terminal", ["sterm"],
    String.join [
      "BhamaqaCAbaFrcGyaBrcJmaCjabadbLhbCPwbBEkaebBDtaHqbGbbBtafaMcbNqdGgbkbcbBdcHfbCnbBJwaxbjcEUx",
      "cLuanawbQnaBSHwaKkbItadaOsbDibDraFwbFrcFobJpaBFCwacbChadbGnamaqaCnaEDwbBXdeBsdHhbEndExcEzbg",
      "aqbDkbbbEeaLmbEnbOjbfoEbbJpcTxabaJrbDjbQebBAqbCwbBCMbbFdaCnblaVhbLkaBDOgaLIma"]⟩,
  ⟨"Soft_Dotted", ["sd"],
    String.join [
      "EbbHoaKvaBeaCaauaMiaDuabaJMnaBzanadaFcaGbaQfaIgbEGgaGELhbBybBybBybBybBybBybBybBybBybBybBybB",
      "ybDFyaLtbBaa"]⟩,
  ⟨"Terminal_Punctuation", ["term"],
    String.join [
      "BhakabalbdaBFyaiaTtaCfaCuaoabcGyaBrkbaJbbCcfbhBfaKbbBWubGqaefLzbBEjhBDtaEucCtbGbcdaBndcbMcb",
      "NqdGgbkbbcBdcHfeCkbBJwaxbjcEUxcLuanaeakabbdbQmbBSHvbKjcIteOsbDibDraFvcFrcExaqbJpaBFCwacbCfc",
      "bdGnakabalbdaCnacaBPqaBwaBSoaHraLybFwfCqfDldBKqeBsdHhgEidExcEzbgaqbDkeEeaLmbEncmbNuddoEbbJp",
      "cTxabaJrbDjbebPycBtaYvbCwbBYxeBAMzbFdaCnckaVhbLjbBDOgaLIld"]⟩,
  ⟨"Unified_Ideograph", ["uideo"],
    "TSaJTnCmBFBjBICsbbabbkababbccDVEcCLFbBgGDtgIncINpoLBkpXxGRqHHyfGFf"⟩,
  ⟨"Variation_Selector", ["vs"], "JCtcbaDJCapBWNKyJf"⟩,
  ⟨"White_Space", ["space", "wspace"], "jesaDwaBaaIHjaDPnkBdbfaBvaFXwa"⟩]

end ClassScript.Unicode
